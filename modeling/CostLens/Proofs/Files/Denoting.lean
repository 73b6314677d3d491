import CostLens.Proofs.Files.Names
import Mathlib.Data.List.Basic
import Mathlib.Logic.Relation

/-! # The absolute path that a text denotes

A text has components behind the root: its own, or those of the home or the current directory and
then its own. Empty ones, dots, and double dots with the name in front of them can be removed in any
order, and what is left in the end is always the same: the place to which the components lead when
they are walked along.
-/
namespace CostLens

open Relation (ReflTransGen)

namespace Path

/-- One removal among the components of an absolute path. -/
inductive Removes : List Text → List Text → Prop
  | idle {name : Text} (before after : List Text) (h : isIdle name = true) :
      Removes (before ++ name :: after) (before ++ after)
  | dotDot {name : Text} (before after : List Text) (h : Stays name) :
      Removes (before ++ name :: (".." : Text) :: after) (before ++ after)
  | dotDotAtRoot (after : List Text) : Removes ((".." : Text) :: after) after

end Path

namespace FileSystem

open CostLens.Path (Removes Stays)

theorem walk_of_idle {n : Text} (h : Path.isIdle n = true) (place : List Text) :
    walk place n = place := by
  have hdots : n ≠ ".." := by
    rintro rfl
    cases h
  rw [walk, if_neg hdots]
  exact if_pos h

theorem walk_back (place : List Text) (n : Text) : walk (place ++ [n]) ".." = place :=
  List.dropLast_concat

theorem walk_stays {place : List Text} (h : ∀ n ∈ place, Stays n) (name : Text) :
    ∀ n ∈ walk place name, Stays n := by
  rcases Path.idle_or_dots_or_stays name with hidle | rfl | hname
  · rw [walk_of_idle hidle]
    exact h
  · exact fun n hn => h n ((List.dropLast_sublist place).subset hn)
  · rw [walk_of_stays hname]
    exact List.forall_mem_append.2 ⟨h, List.forall_mem_singleton.2 hname⟩

theorem foldl_walk_stays {start : List Text} (h : ∀ n ∈ start, Stays n) (names : List Text) :
    ∀ n ∈ names.foldl walk start, Stays n := by
  induction names generalizing start with
  | nil => exact h
  | cons name names ih => exact ih (walk_stays h name)

theorem mem_of_mem_walk {place : List Text} {name n : Text} (h : n ∈ walk place name) :
    n ∈ place ∨ n = name := by
  unfold walk at h
  split at h
  · exact .inl ((List.dropLast_sublist place).subset h)
  split at h
  · exact .inl h
  · exact (List.mem_append.1 h).imp_right List.mem_singleton.1

theorem mem_of_mem_foldl_walk {names start : List Text} {n : Text}
    (h : n ∈ names.foldl walk start) : n ∈ start ∨ n ∈ names := by
  induction names generalizing start with
  | nil => exact .inl h
  | cons name names ih =>
    rcases ih h with hn | hn
    · rcases mem_of_mem_walk hn with hn | rfl
      · exact .inl hn
      · exact .inr List.mem_cons_self
    · exact .inr (List.mem_cons_of_mem _ hn)

/-- A removal does not change where the components lead. -/
theorem foldl_walk_of_removes {a b : List Text} (h : Removes a b) :
    a.foldl walk [] = b.foldl walk [] := by
  cases h with
  | idle before after hn =>
    rw [List.foldl_append, List.foldl_append, List.foldl_cons, walk_of_idle hn]
  | @dotDot name before after hn =>
    rw [List.foldl_append, List.foldl_append, List.foldl_cons, List.foldl_cons, walk_of_stays hn,
      walk_back]
  | dotDotAtRoot after => rfl

/-- Whatever the components are, removing can go on until they are the place to which they lead.
What is already walked along stands in front, with nothing left to remove. -/
theorem removes_foldl_walk {start : List Text} (h : ∀ n ∈ start, Stays n) (names : List Text) :
    ReflTransGen Removes (start ++ names) (names.foldl walk start) := by
  induction names generalizing start with
  | nil =>
    rw [List.append_nil]
    exact .refl
  | cons name names ih =>
    have hrest := ih (walk_stays h name)
    rw [List.foldl_cons]
    rcases Path.idle_or_dots_or_stays name with hidle | rfl | hname
    · rw [walk_of_idle hidle] at hrest ⊢
      exact .head (.idle start names hidle) hrest
    · rcases List.eq_nil_or_concat' start with rfl | ⟨outer, last, rfl⟩
      · exact .head (.dotDotAtRoot names) hrest
      · have hlast : Stays last := h last (by simp)
        rw [walk_back] at hrest ⊢
        rw [List.append_assoc, List.singleton_append]
        exact .head (.dotDot outer names hlast) hrest
    · rw [walk_of_stays hname, List.append_assoc, List.singleton_append] at hrest
      rwa [walk_of_stays hname]

/-- The components of the absolute path for which a text stands. A tilde in front is the home
directory, and whatever does not begin at the root goes on from the current directory. -/
def components (fs : FileSystem) (t : Text) : List Text :=
  if startsWith t "/" then Path.splitSlashes t
  else match (Path.splitSlashes t).dropWhile Path.isIdle with
    | ['~'] :: rest => fs.home ++ rest
    | _ => fs.current ++ Path.splitSlashes t

/-- A text denotes the names that are left of its components when nothing can be removed. -/
def Denotes (fs : FileSystem) (t : Text) (names : List Text) : Prop :=
  ReflTransGen Removes (fs.components t) names ∧ ∀ n ∈ names, Stays n

/-- A text denotes one absolute path, whatever is removed first. -/
theorem denotes_iff {fs : FileSystem} {t : Text} {names : List Text} :
    fs.Denotes t names ↔ names = (fs.components t).foldl walk [] := by
  constructor
  · rintro ⟨hremoved, hstays⟩
    have hsame : (fs.components t).foldl walk [] = names.foldl walk [] := by
      clear hstays
      induction hremoved with
      | refl => rfl
      | tail _ hstep ih => exact ih.trans (foldl_walk_of_removes hstep)
    rw [hsame, foldl_walk_of_stays hstays, List.nil_append]
  · rintro rfl
    have hnone : ∀ n ∈ ([] : List Text), Stays n := fun _ hn => nomatch hn
    exact ⟨removes_foldl_walk hnone _, foldl_walk_stays hnone _⟩

end FileSystem

end CostLens

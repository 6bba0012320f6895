import Modulize.Pattern.Basic

/-!
# The readings of a pattern

`Pattern.attempt` is the first success among the readings that `Pattern.ends` lists
(`attempt_eq_findSome?`); so the match at a place is the preferred reading there
(`matchAt?_eq_head?`), and a pattern can be read at a place exactly when it has a reading there
(`fits_iff`).
-/

namespace Modulize.Pattern

theorem findSome?_flatMap {α β γ : Type} (f : α → List β) (k : β → Option γ) (l : List α) :
    (l.flatMap f).findSome? k = l.findSome? fun a => (f a).findSome? k := by
  induction l with
  | nil => rfl
  | cons a l ih => simp only [List.flatMap_cons, List.findSome?_append, List.findSome?_cons, ih]
                   cases (f a).findSome? k <;> rfl

theorem tryPreferring_eq_findSome? {α β : Type} (greedy : Bool) (k : β → Option α)
    (longer stopping : List β) :
    tryPreferring greedy (fun _ => longer.findSome? k) (fun _ => stopping.findSome? k) =
      (preferring greedy longer stopping).findSome? k := by
  cases greedy
  · simp only [tryPreferring, preferring, Bool.false_eq_true, if_false, List.findSome?_append]
    cases stopping.findSome? k <;> rfl
  · simp only [tryPreferring, preferring, if_true, List.findSome?_append]
    cases longer.findSome? k <;> rfl

theorem repeatAttempt_eq_findSome? {α : Type} (body : Cursor → List Cursor) (greedy : Bool)
    (k : Cursor → Option α) (fuel : Text) (most : Option Nat) (c : Cursor) :
    repeatAttempt (fun d k => (body d).findSome? k) greedy k fuel most c =
      (repeatEnds body greedy fuel most c).findSome? k := by
  have stop (c : Cursor) : k c = [c].findSome? k := by
    simp only [List.findSome?_cons, List.findSome?_nil]
    cases k c <;> rfl
  fun_induction repeatEnds body greedy fuel most c with
  | case1 fuel c => cases fuel <;> simp [repeatAttempt]
  | case2 most c h =>
    rw [← tryPreferring_eq_findSome?, ← stop c]
    cases most with
    | none => rfl
    | some n => cases n with
      | zero => exact absurd rfl h
      | succ n => rfl
  | case3 a fuel most c h longer ih =>
    have step : (fun d : Cursor => if d.offset = c.offset then k d else
          repeatAttempt (fun d k => (body d).findSome? k) greedy k fuel (most.map (· - 1)) d) =
        fun d : Cursor => (if d.offset = c.offset then [d]
          else repeatEnds body greedy fuel (most.map (· - 1)) d).findSome? k := by
      funext d
      split
      · exact stop d
      · exact ih d
    have unfolded : repeatAttempt (fun d k => (body d).findSome? k) greedy k (a :: fuel) most c =
        tryPreferring greedy (fun _ => (body c).findSome? fun d => if d.offset = c.offset then k d
          else repeatAttempt (fun d k => (body d).findSome? k) greedy k fuel (most.map (· - 1)) d)
          fun _ => k c := by
      cases most with
      | none => rfl
      | some n => cases n with
        | zero => exact absurd rfl h
        | succ n => rfl
    rw [unfolded, step, ← tryPreferring_eq_findSome?, findSome?_flatMap, ← stop c]

theorem findSome?_take_one {α β : Type} (k : α → Option β) (l : List α) :
    (l.take 1).findSome? k = (l.findSome? some).bind k := by
  cases l with
  | nil => rfl
  | cons a l => simp

/-- The matcher finds the first of the listed readings that the continuation accepts. -/
theorem attempt_eq_findSome? (r : Pattern) {α : Type} (c : Cursor) (k : Cursor → Option α) :
    r.attempt c k = (r.ends c).findSome? k := by
  induction r generalizing α c with
  | nothing => simp [attempt, ends]
  | place p => simp only [attempt, ends]; split <;> simp
  | one p =>
    simp only [attempt, ends]
    cases c.rest with
    | nil => rfl
    | cons a r => simp only; split <;> simp
  | span p greedy => simp only [attempt, ends]
  | seq a b iha ihb => simp only [attempt, ends, iha, findSome?_flatMap, ihb]
  | alt a b iha ihb =>
    simp only [attempt, ends, iha, ihb, List.findSome?_append]
    cases (a.ends c).findSome? k <;> rfl
  | many body most greedy ih =>
    simp only [attempt, ends, ih]
    exact repeatAttempt_eq_findSome? _ _ _ _ _ _
  | group i body ih => simp only [attempt, ends, ih, List.findSome?_map]; rfl
  | again i =>
    simp only [attempt, ends]
    cases readAgain? i c <;> simp
  | once body ih => simp only [attempt, ends, ih, findSome?_take_one]
  | ahead body wanted ih =>
    simp only [attempt, ends, ih]
    cases body.ends c <;> cases wanted <;> simp
  | behind width body wanted ih =>
    simp only [attempt, ends, ih]
    cases c.back? width with
    | none => cases wanted <;> simp
    | some b =>
      simp only [Option.bind_some, Option.map_some]
      cases body.ends b <;> cases wanted <;> simp

theorem matchAt?_eq_head? (r : Pattern) (c : Cursor) :
    r.matchAt? c = (r.ends c).head?.map (Match.mk c) := by
  rw [matchAt?, attempt_eq_findSome?]
  cases r.ends c <;> rfl

theorem fits_iff (r : Pattern) (c : Cursor) : r.fits c = true ↔ r.ends c ≠ [] := by
  rw [fits, matchAt?_eq_head?]
  cases r.ends c <;> simp

end Modulize.Pattern

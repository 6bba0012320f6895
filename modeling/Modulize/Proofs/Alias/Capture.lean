import Modulize.Proofs.Alias.Attempts
import Modulize.Proofs.Qualified.Substitution
import Modulize.Script.Extent

/-!
# References that are captured

An alias is written for the references to a namespace wherever they stand. In the body of a function
that has a parameter of this name, the reference then means the parameter (`Captures`).

The search for an alias looks for declarations and for accesses, not for parameters. So an alias is
kept from being captured as far as the parameters around the references are seen in another way:
each of them that the search can come to (`IsCandidate`) is forbidden, declared or accessed
(`IsSeen`). If the first candidate that is not taken is a parameter around a reference and is not
seen, then it is found, and the reference is captured (`captures_of_allocate`).
-/

namespace Modulize.Alias

open Pattern Qualified

/-! ## Function literals -/

/-- The beginning of a function literal, up to its parenthesis. -/
def functionHead : Pattern :=
  notAfter isIdent ++ literal "function" ++ blanks ++ one (· == '(')

/-- A function literal in a text: its parameters, and where its body begins and ends. -/
structure FunctionLiteral where
  params : List Text
  start : Nat
  stop : Nat
  deriving DecidableEq, Repr

/-- The names in a list of parameters. -/
def parameterNames (list : Text) : List Text :=
  ((Text.splitOn ',' list).map Text.trim).filter (· ≠ [])

/-- The function literal that begins in a certain way, if its brackets are closed. -/
def functionLiteral? (t : Text) (head : Match) : Option FunctionLiteral := do
  let close ← (Script.groupEnd t (head.stop.offset - 1)).toOption
  let brace ← (blanks ++ one (· == '{')).matchAt? (Cursor.ofText t close)
  let finish ← (Script.groupEnd t (brace.stop.offset - 1)).toOption
  pure ⟨parameterNames (t.slice head.stop.offset (close - 1)), brace.stop.offset, finish - 1⟩

/-- The function literals of a text, also those within others. -/
def functionLiterals (t : Text) : List FunctionLiteral :=
  (functionHead.allMatches t).filterMap (functionLiteral? t)

/-- A match lies in the body of a function literal. -/
def FunctionLiteral.Encloses (f : FunctionLiteral) (m : Match) : Prop :=
  f.start ≤ m.start.offset ∧ m.stop.offset ≤ f.stop

instance (f : FunctionLiteral) (m : Match) : Decidable (f.Encloses m) :=
  inferInstanceAs (Decidable (_ ∧ _))

/-- A name for a namespace is captured in a text: a reference to the namespace lies in the body of a
function literal with a parameter of that name. -/
def Captures (t name a : Text) : Prop :=
  ∃ f ∈ functionLiterals t, a ∈ f.params ∧ ∃ m ∈ (reference name).allMatches t, f.Encloses m

instance (t name a : Text) : Decidable (Captures t name a) :=
  inferInstanceAs (Decidable (∃ f ∈ _, _))

/-- A piece of a text, behind `past`, lies in no function literal with a parameter of this name. -/
def IsOutside (t a past piece : Text) : Prop :=
  ∀ f ∈ functionLiterals t, f.start ≤ past.length → past.length + piece.length ≤ f.stop →
    a ∉ f.params

/-- A name that is not captured is written outside of the functions with such a parameter. -/
theorem rewrites_of_not_captures {t name a : Text} (hne : name ≠ []) (h : ¬ Captures t name a) :
    Rewrites (fun past piece rest new =>
        (StandsAt name past piece rest ∧ new = a) ∧ IsOutside t a past piece)
      [] t (replaceReferences t name a) := by
  refine (rewrites_replaceReferences hne t a).imp ?_
  rintro _ _ rest new ⟨stands, m, hm, rfl, rfl⟩
  refine ⟨stands, fun f hf starts stops ha => h ⟨f, hf, ha, m, hm, ?_⟩⟩
  rw [FunctionLiteral.Encloses, stop_offset_of_mem_allMatches hm, (mem_allMatches hm).1.offset]
  exact ⟨starts, stops⟩

/-! ## What a search can come to -/

namespace Search

/-- The search goes from one candidate to another by its changes. -/
inductive Leads (s : Search) : Search → Prop
  | start : Leads s s
  | clash {s' : Search} (h : Leads s s') : Leads s s'.avoidClash
  | accessed {s' : Search} (h : Leads s s') : Leads s s'.avoidPrefix

variable {s s' : Search} {last : Text}

/-- A fixed replacement begins with what it replaces. -/
theorem prefix_of_replacement {word new : Text} (h : lookup? word replacements = some new) :
    word <+: new := by
  have longer : ∀ e ∈ replacements, e.1 <+: e.2 := by decide
  exact longer _ (mem_of_lookup? h)

theorem infix_avoidClash (h : last <:+: s.candidate) : last <:+: s.avoidClash.candidate := by
  unfold avoidClash
  split
  · rename_i word found
    exact h.trans (prefix_of_replacement found).isInfix
  · split
    · rename_i o os outer
      exact h.trans (List.suffix_append o _).isInfix
    · exact h.trans (List.suffix_cons _ _).isInfix

theorem infix_avoidPrefix (h : last <:+: s.candidate) : last <:+: s.avoidPrefix.candidate := by
  unfold avoidPrefix
  split
  · rename_i o os outer
    exact h.trans ((List.suffix_cons '_' _).trans (List.suffix_append o _)).isInfix
  · split
    · exact h.trans (List.suffix_cons _ _).isInfix
    · exact h.trans (List.prefix_append _ _).isInfix

/-- What is in a candidate is in all that the search can come to from there. -/
theorem Leads.infix (leads : s.Leads s') (h : last <:+: s.candidate) : last <:+: s'.candidate := by
  induction leads with
  | start => exact h
  | clash _ ih => exact infix_avoidClash ih
  | accessed _ ih => exact infix_avoidPrefix ih

/-- The candidate behind a number of candidates that are taken. -/
def afterClashes (s : Search) : Nat → Search
  | 0 => s
  | n + 1 => s.avoidClash.afterClashes n

end Search

/-- The search for an alias of a namespace can come to a name. -/
def IsCandidate (name p : Text) : Prop := ∃ s : Search, (Search.start name).Leads s ∧ s.name = p

/-- A search takes notice of a name. -/
def IsSeen (around : Surroundings) (p : Text) : Prop :=
  p ∈ around.forbidden ∨ isDeclared around.text p = true ∨ isAccessed around.text p = true

variable {around : Surroundings} {name a p : Text} {attempts : Nat}

/-- All names that a search can come to are at least as long as the last segment of the namespace,
and contain it up to their first letter. -/
theorem IsCandidate.exists_infix (h : IsCandidate name p) :
    ∃ c, lastSegment name <:+: c ∧ c.length ≤ p.length ∧ (p = c ∨ p = capitalizeFirst c) := by
  obtain ⟨s, leads, rfl⟩ := h
  refine ⟨s.candidate, leads.infix (List.infix_refl _), s.length_le_name, ?_⟩
  unfold Search.name
  split
  · exact Or.inr rfl
  · exact Or.inl rfl

theorem isCandidate_of_allocate (h : allocate name around attempts = .ok a) :
    IsCandidate name a := by
  obtain ⟨s, leads, rfl, -, -⟩ := Search.exists_of_run (P := (Search.start name).Leads)
    (fun _ => .clash) (fun _ => .accessed) .start (run_of_allocate h)
  exact ⟨s, leads, rfl⟩

theorem not_isSeen_of_allocate (h : allocate name around attempts = .ok a) : ¬ IsSeen around a := by
  obtain ⟨forbidden, declared, accessed⟩ := free_of_allocate h
  simp [IsSeen, forbidden, declared, accessed]

theorem next?_of_not_isSeen {phase : Search.Phase} {s : Search} (h : ¬ IsSeen around s.name) :
    Search.next? around phase s = none := by
  obtain ⟨forbidden, declared, accessed⟩ : s.name ∉ around.forbidden ∧
      isDeclared around.text s.name = false ∧ isAccessed around.text s.name = false := by
    simpa [IsSeen] using h
  exact Search.next?_eq_none_iff.2 ⟨by simp [Search.clashes, forbidden, declared], accessed⟩

/-- While the candidates are taken, the search goes on to the first that is not. -/
theorem run_of_clashes {n : Nat} {s : Search}
    (taken : ∀ i < n, (s.afterClashes i).clashes around = true)
    (free : ¬ IsSeen around (s.afterClashes n).name) (enough : n ≤ attempts) :
    Search.run around attempts .clash s = some (s.afterClashes n).name := by
  induction n generalizing s attempts with
  | zero => exact Search.run_of_done (next?_of_not_isSeen free)
  | succ n ih =>
    obtain ⟨attempts, rfl⟩ := Nat.exists_eq_add_of_le' (Nat.le_of_add_left_le enough)
    have first : s.clashes around = true := taken 0 (Nat.zero_lt_succ n)
    have next : Search.next? around .clash s = some (.clash, s.avoidClash) := by
      simp [Search.next?, first]
    rw [Search.run_succ_of_next next]
    exact ih (fun i hi => taken (i + 1) (Nat.succ_lt_succ hi)) free (Nat.le_of_succ_le_succ enough)

/-- **When an alias is captured.**
* If all parameters around the references that the search can come to are seen, then no alias that
  it finds is captured: the references are exchanged for it outside of all functions with such a
  parameter.
* If the first candidate that is not taken is a parameter around a reference and is not seen, then
  it is found with as many attempts as are needed to come to it, and it is captured. -/
theorem captures_of_allocate (name : Text) (around : Surroundings) :
    ((∀ p, Captures around.text name p → IsCandidate name p → IsSeen around p) →
      ∀ attempts a, allocate name around attempts = .ok a →
        ¬ Captures around.text name a ∧ (name ≠ [] →
          Rewrites (fun past piece rest new =>
              (StandsAt name past piece rest ∧ new = a) ∧ IsOutside around.text a past piece)
            [] around.text (replaceReferences around.text name a))) ∧
    ∀ n, (∀ i < n, ((Search.start name).afterClashes i).clashes around = true) →
      Captures around.text name ((Search.start name).afterClashes n).name →
      ¬ IsSeen around ((Search.start name).afterClashes n).name →
      ∀ attempts ≥ n, ∃ a, allocate name around attempts = .ok a ∧
        Captures around.text name a := by
  constructor
  · intro seen attempts a found
    have free : ¬ Captures around.text name a := fun captured =>
      not_isSeen_of_allocate found (seen a captured (isCandidate_of_allocate found))
    exact ⟨free, fun hne => rewrites_of_not_captures hne free⟩
  · intro n taken captured free attempts enough
    refine ⟨_, ?_, captured⟩
    rw [allocate, run_of_clashes taken free enough]

/-- A function in which a parameter is seen, and another is nothing that the search can come to. -/
def seenText : Text := "var f = function(x, C) \x7b return x + C.y + a.b.C; \x7d;"

/-- No reference is captured there. -/
theorem captures_of_allocate_seen :
    allocate "a.b.C" ⟨[], seenText⟩ 64 = .ok "B_C" ∧ ¬ Captures seenText "a.b.C" "B_C" ∧
      replaceReferences seenText "a.b.C" "B_C" =
        "var f = function(x, C) \x7b return x + C.y + B_C; \x7d;" := by
  have found : allocate "a.b.C" ⟨[], seenText⟩ 64 = .ok "B_C" := by rfl
  refine ⟨found, ((captures_of_allocate "a.b.C" ⟨[], seenText⟩).1 ?_ 64 _ found).1,
    by decide +kernel⟩
  rintro p ⟨f, hf, hp, -⟩ candidate
  have literals : functionLiterals seenText = [⟨["x", "C"], 24, 49⟩] := by decide +kernel
  obtain rfl := List.mem_singleton.1 (literals ▸ hf)
  rcases List.mem_cons.1 hp with rfl | hp
  · obtain ⟨c, segment, length, same⟩ := candidate.exists_infix
    have one : c = lastSegment "a.b.C" := (segment.eq_of_length_le length).symm
    subst one
    exact absurd same (by decide)
  · obtain rfl := List.mem_singleton.1 hp
    exact Or.inr (Or.inr (by decide +kernel))

/-- A function with a parameter that is named like the namespace. -/
def parameterText : Text := "var f = function(C) \x7b return a.b.C; \x7d;"

/-- **A parameter captures a reference**: the alias that is found in this text is the parameter. -/
theorem allocate_captured :
    allocate "a.b.C" ⟨[], parameterText⟩ 64 = .ok "C" ∧ Captures parameterText "a.b.C" "C" ∧
      replaceReferences parameterText "a.b.C" "C" =
        "var f = function(C) \x7b return C; \x7d;" :=
  ⟨by rfl, by decide +kernel, by decide +kernel⟩

end Modulize.Alias

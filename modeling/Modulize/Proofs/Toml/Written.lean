import Modulize.Proofs.Toml.Keys
import Modulize.Proofs.Toml.Numbers

/-!
# Written settings files are read back

What the writer puts into a line is read back with the line break left behind it: a value
(`Item.value?_written`), an entry or a header (`Line.statement?_written`). Comments and empty lines
are passed over (`skipLines?_write`). So the statements of a written file are those of its lines
(`statements?_write`), and the file is read as what they mean together (`read_write`).

A line has to be plain for this (`Line.IsPlain`): a comment is on one line, and a header has a key.
-/

namespace Modulize.Toml

open Pattern

/-! ## Blanks between the members of a list -/

/-- A character at which blanks, line breaks and comments end. -/
def isSolid (c : Char) : Bool := !isSpaceOrTab c && c != '\n' && c != '#'

theorem skipLines?_solid {a : Char} (ha : isSolid a = true) (fuel : Nat) (t : Text) :
    skipLines? (fuel + 1) (a :: t) = some (a :: t) := by
  simp only [isSolid, Bool.and_eq_true, Bool.not_eq_true', bne_iff_ne] at ha
  have stays : (a :: t).dropWhile (fun c => isSpaceOrTab c || c == '\n') = a :: t :=
    List.dropWhile_cons_of_neg (by simp [ha])
  simp [skipLines?, stays, ha.2]

theorem skipLines?_space (fuel : Nat) (t : Text) :
    skipLines? (fuel + 1) (' ' :: t) = skipLines? (fuel + 1) t := rfl

/-! ## Values -/

theorem value?_writeText (fuel : Nat) (t : Text) {r : Text} (hr : ∀ a ∈ r.head?, a ≠ '"') :
    value? (fuel + 1) (writeText t ++ r) = some (.text t, r) := by
  have quoted : value? (fuel + 1) (writeText t ++ r) =
      (quotedText? (writeText t ++ r)).map (Prod.map .text id) := by
    rw [writeText_eq]
    rfl
  rw [quoted, quotedText?_writeText t hr]
  rfl

/-- A digit begins a number or a point in time. -/
theorem value?_digit (fuel : Nat) {a : Char} (ha : a.isDigit = true) (t : Text) :
    value? (fuel + 1) (a :: t) = numberOrMoment? (a :: t) := by
  have other : ∀ b, b.isDigit = false → a ≠ b := by
    rintro b hb rfl
    simp [hb] at ha
  rw [value?.eq_def]
  dsimp only
  -- the other branches are for first characters that are no digits
  split
  iterate 6
    · rename_i e
      exact absurd (List.cons.inj e).1 (other _ (by decide))
  · rfl

section

variable (fuel : Nat) (acc : List Value) (t r : Text)

/-- A space before a member is passed over. -/
theorem members?_space {a : Char} (ha : isSolid a = true) :
    members? (fuel + 1) acc (' ' :: a :: t) = members? (fuel + 1) acc (a :: t) := by
  rw [members?.eq_def, members?.eq_def]
  simp only [skipLines?_space, skipLines?_solid ha]

/-- The end of a list. -/
theorem members?_end : members? (fuel + 1) acc (']' :: r) = some (acc.reverse, r) := by
  rw [members?.eq_def]
  simp [skipLines?_solid (show isSolid ']' = true by decide)]

/-- A member of a list that a comma follows. -/
theorem members?_comma :
    members? (fuel + 2) acc (writeText t ++ ',' :: r) = members? (fuel + 1) (.text t :: acc) r := by
  have value := value?_writeText fuel t (r := ',' :: r) (by simp)
  rw [writeText_eq] at value ⊢
  rw [members?.eq_def]
  simp [skipLines?_solid (show isSolid '"' = true by decide), value,
    skipLines?_solid (show isSolid ',' = true by decide)]

/-- The last member of a list. -/
theorem members?_last :
    members? (fuel + 2) acc (writeText t ++ ']' :: r) = some ((.text t :: acc).reverse, r) := by
  have value := value?_writeText fuel t (r := ']' :: r) (by simp)
  rw [writeText_eq] at value ⊢
  rw [members?.eq_def]
  simp [skipLines?_solid (show isSolid '"' = true by decide), value,
    skipLines?_solid (show isSolid ']' = true by decide)]

end

/-- The written texts of a list with its closing bracket. -/
def listTail (ts : List Text) (r : Text) : Text := Text.joinWith ", " (ts.map writeText) ++ ']' :: r

theorem listTail_cons_cons (t t' : Text) (ts : List Text) (r : Text) :
    listTail (t :: t' :: ts) r = writeText t ++ ',' :: ' ' :: listTail (t' :: ts) r := by
  simp [listTail, Text.joinWith]

theorem exists_listTail_cons (t : Text) (ts : List Text) (r : Text) :
    ∃ x, listTail (t :: ts) r = '"' :: x := by
  cases ts with
  | nil => exact ⟨_, writeText_eq t (']' :: r)⟩
  | cons t' ts => exact ⟨_, (listTail_cons_cons t t' ts r).trans (writeText_eq t _)⟩

/-- **A written list of texts is read back.** -/
theorem members?_listTail (ts : List Text) (r : Text) (acc : List Value) {fuel : Nat}
    (h : ts.length < fuel) :
    members? (fuel + 1) acc (listTail ts r) = some (acc.reverse ++ ts.map .text, r) := by
  induction ts generalizing acc fuel with
  | nil =>
    rw [List.map_nil, List.append_nil]
    exact members?_end fuel acc r
  | cons t ts ih =>
    obtain ⟨fuel, rfl⟩ : ∃ n, fuel = n + 1 := ⟨fuel - 1, by omega⟩
    cases ts with
    | nil =>
      have last := members?_last fuel acc t r
      rw [List.reverse_cons] at last
      exact last
    | cons t' ts =>
      obtain ⟨x, hx⟩ := exists_listTail_cons t' ts r
      have rest : members? (fuel + 1) (.text t :: acc) (listTail (t' :: ts) r) = _ :=
        ih (.text t :: acc) (by simpa using h)
      rw [hx] at rest
      rw [listTail_cons_cons, members?_comma, hx, members?_space _ _ _ (by decide), rest]
      simp

namespace Item

/-- **A written value is read back** at the end of a line. -/
theorem value?_written (item : Item) {r : Text} (hr : AtBreak r) {fuel : Nat}
    (h : item.written.length + 2 ≤ fuel) :
    value? fuel (item.written ++ r) = some (item.value, r) := by
  obtain ⟨fuel, rfl⟩ : ∃ n, fuel = n + 1 := ⟨fuel - 1, by omega⟩
  cases item with
  | text t => exact value?_writeText fuel t fun a ha => by rw [hr a ha]; decide
  | flag b => cases b <;> rfl
  | number n =>
    obtain ⟨a, x, e, digit⟩ := exists_ofNat n
    have read := numberOrMoment?_ofNat n hr
    rw [e] at read
    rw [written, e, List.cons_append, value?_digit fuel digit]
    exact read
  | texts ts =>
    have short := Text.length_le_joinWith (show (", " : Text) ≠ [] by simp) (ts.map writeText)
    simp only [written, List.length_append, List.length_cons, List.length_nil] at h
    rw [List.length_map] at short
    obtain ⟨fuel, rfl⟩ : ∃ n, fuel = n + 1 := ⟨fuel - 1, by omega⟩
    have list : value? (fuel + 2) ((Item.texts ts).written ++ r) =
        (members? (fuel + 1) [] (listTail ts r)).map (Prod.map .list id) := by
      simp only [written, listTail, List.append_assoc]
      rfl
    rw [list, members?_listTail ts r [] (by omega)]
    rfl

/-- A written value does not begin with a space. -/
theorem skipSpaces_written (item : Item) (r : Text) :
    skipSpaces (item.written ++ r) = item.written ++ r := by
  cases item with
  | text t => exact skipSpaces_cons (show isSpaceOrTab '"' = false by decide) _
  | flag b => cases b <;> rfl
  | number n =>
    obtain ⟨a, x, e, digit⟩ := exists_ofNat n
    have space : isSpaceOrTab a = false := by
      cases h : isSpaceOrTab a with
      | false => rfl
      | true =>
        simp only [isSpaceOrTab, Bool.or_eq_true, beq_iff_eq] at h
        rcases h with rfl | rfl <;> exact absurd digit (by decide)
    rw [written, e, List.cons_append]
    exact skipSpaces_cons space _
  | texts ts => exact skipSpaces_cons (show isSpaceOrTab '[' = false by decide) _

end Item

/-! ## Statements -/

theorem endsKey_bracket (r : Text) : EndsKey (']' :: r) := by
  have bracket : isSpaceOrTab ']' = false := by decide
  refine ⟨by simpa using (show isBare ']' = false by decide), ?_⟩
  rw [skipSpaces_cons bracket]
  simp

theorem endsKey_equals (r : Text) : EndsKey (' ' :: '=' :: r) := by
  have equals : isSpaceOrTab '=' = false := by decide
  have behind : skipSpaces (' ' :: '=' :: r) = '=' :: r := skipSpaces_cons equals r
  refine ⟨by simpa using (show isBare ' ' = false by decide), ?_⟩
  rw [behind]
  simp

section

variable {keys : List Text}

/-- A written key in front of a bracket is read back. -/
theorem key?_bracket (hne : keys ≠ []) (r : Text) : key? ((writeKeys keys ++ ']' :: r).length + 1)
    (skipSpaces (writeKeys keys ++ ']' :: r)) = some (keys, ']' :: r) := by
  have short := length_le_writeKeys keys
  have bracket : isSpaceOrTab ']' = false := by decide
  rw [skipSpaces_writeKeys hne, key?_writeKeys hne (endsKey_bracket r), skipSpaces_cons bracket]
  rw [List.length_append]
  omega

/-- **A written header is read back.** -/
theorem statement?_header (hne : keys ≠ []) (r : Text) :
    statement? ('[' :: (writeKeys keys ++ ']' :: r)) = some (.header keys, r) := by
  have read := key?_bracket hne r
  obtain ⟨k, ks, rfl⟩ := List.exists_cons_of_ne_nil hne
  obtain ⟨a, x, e, ha⟩ := exists_writeKeys k ks
  have bracket : a ≠ '[' := ne_of_keyStart ha (by decide) (by decide)
  rw [e] at read ⊢
  simp only [List.cons_append] at read ⊢
  unfold statement?
  split
  · rename_i e
    exact absurd (List.cons.inj (List.cons.inj e).2).1 bracket
  · rename_i e
    obtain rfl := (List.cons.inj e).2
    rw [read]
    rfl
  · rename_i other
    exact absurd rfl (other _)

/-- **A written header of a member of a list is read back.** -/
theorem statement?_arrayHeader (hne : keys ≠ []) (r : Text) :
    statement? ('[' :: '[' :: (writeKeys keys ++ ']' :: ']' :: r)) =
      some (.arrayHeader keys, r) := by
  have read := key?_bracket hne (']' :: r)
  simp only [statement?, read]

end

/-- **A written entry is read back.** -/
theorem statement?_entry (key : Text) (item : Item) {r : Text} (hr : AtBreak r) :
    statement? (writeKey key ++ ' ' :: '=' :: ' ' :: (item.written ++ r)) =
      some (.entry [key] item.value, r) := by
  have equals : isSpaceOrTab '=' = false := by decide
  have value : skipSpaces (' ' :: (item.written ++ r)) = item.written ++ r :=
    item.skipSpaces_written r
  have read (fuel : Nat) : key? (fuel + 1) (writeKey key ++ ' ' :: '=' :: ' ' ::
      (item.written ++ r)) = some ([key], '=' :: ' ' :: (item.written ++ r)) := by
    rw [← writeKeys_singleton]
    exact key?_writeKeys (List.cons_ne_nil key []) (endsKey_equals _) (by simp)
  obtain ⟨a, x, e, ha⟩ := exists_writeKey key
  have bracket : a ≠ '[' := ne_of_keyStart ha (by decide) (by decide)
  rw [e] at read ⊢
  simp only [List.cons_append] at read ⊢
  unfold statement?
  split
  · rename_i e
    exact absurd (List.cons.inj e).1 bracket
  · rename_i e
    exact absurd (List.cons.inj e).1 bracket
  · simp only [read, value]
    rw [item.value?_written hr (by simp; omega)]
    rfl

/-! ## Lines -/

namespace Line

/-- A comment on one line without control characters, or a header of one or more keys. -/
def IsPlain : Line → Prop
  | .comment t => t.all (fun c => !isForbidden c) = true
  | .header keys | .arrayHeader keys => keys ≠ []
  | .blank | .entry .. => True

instance : DecidablePred IsPlain
  | .comment t => inferInstanceAs (Decidable (t.all (fun c => !isForbidden c) = true))
  | .header keys | .arrayHeader keys => inferInstanceAs (Decidable (keys ≠ []))
  | .blank | .entry .. => inferInstanceAs (Decidable True)

/-- The line is a comment or empty. -/
def isSilent (l : Line) : Bool := l.statement?.isNone

/-- **A written line is read back**, with its line break left. -/
theorem statement?_written {l : Line} (plain : l.IsPlain) {s : Statement}
    (hs : l.statement? = some s) (r : Text) :
    Toml.statement? (l.written ++ r) = some (s, '\n' :: r) := by
  cases l with
  | comment t => cases hs
  | blank => cases hs
  | header keys =>
    obtain rfl := Option.some.inj hs
    have h := statement?_header plain ('\n' :: r)
    simpa [written, writeKeys] using h
  | arrayHeader keys =>
    obtain rfl := Option.some.inj hs
    have h := statement?_arrayHeader plain ('\n' :: r)
    simpa [written, writeKeys] using h
  | entry key item =>
    obtain rfl := Option.some.inj hs
    have h := statement?_entry key item (atBreak_newline r)
    simpa [written] using h

/-- A line with a statement begins with it. -/
theorem exists_written {l : Line} {s : Statement} (hs : l.statement? = some s) :
    ∃ a x, l.written = a :: x ∧ isSolid a = true := by
  cases l with
  | comment t => cases hs
  | blank => cases hs
  | header keys => exact ⟨'[', _, rfl, by decide⟩
  | arrayHeader keys => exact ⟨'[', _, rfl, by decide⟩
  | entry key item =>
    obtain ⟨a, x, e, ha⟩ := exists_writeKey key
    have space := ne_of_keyStart ha (b := ' ') (by decide) (by decide)
    have tab := ne_of_keyStart ha (b := '\t') (by decide) (by decide)
    have newline := ne_of_keyStart ha (b := '\n') (by decide) (by decide)
    have hash := ne_of_keyStart ha (b := '#') (by decide) (by decide)
    refine ⟨a, x ++ " = " ++ item.written ++ ['\n'], by simp [written, e], ?_⟩
    simp [isSolid, isSpaceOrTab, space, tab, newline, hash]

end Line

theorem write_cons (l : Line) (ls : List Line) : write (l :: ls) = l.written ++ write ls := rfl

/-- A comment is passed over up to its line break. -/
theorem skipComment?_written {t : Text} (h : t.all (fun c => !isForbidden c) = true) (r : Text) :
    skipComment? ('#' :: ' ' :: (t ++ '\n' :: r)) = some ('\n' :: r) := by
  have allowed : ∀ c ∈ t, isForbidden c = false := fun c hc => by
    simpa using List.all_eq_true.1 h c hc
  have single : ∀ c ∈ t, (c != '\n') = true := by
    intro c hc
    rw [bne_iff_ne]
    rintro rfl
    exact absurd (allowed _ hc) (by decide)
  have comment : (' ' :: (t ++ '\n' :: r)).takeWhile (· != '\n') = ' ' :: t := by
    rw [List.takeWhile_cons_of_pos (by decide), List.takeWhile_append_of_pos single,
      List.takeWhile_cons_of_neg (by decide), List.append_nil]
  have none : (' ' :: t).any isForbidden = false := by
    rw [List.any_eq_false]
    intro c hc
    rcases List.mem_cons.1 hc with rfl | hc
    · decide
    · simp [allowed c hc]
  simp only [skipComment?, comment, none, Bool.false_eq_true, if_false]
  simp

/-- **Comments and empty lines are passed over.** -/
theorem skipLines?_write {ls : List Line} (plain : ∀ l ∈ ls, l.IsPlain) {fuel : Nat}
    (h : (write ls).length < fuel) :
    skipLines? fuel (write ls) = some (write (ls.dropWhile Line.isSilent)) := by
  induction ls generalizing fuel with
  | nil =>
    obtain ⟨fuel, rfl⟩ : ∃ n, fuel = n + 1 := ⟨fuel - 1, by omega⟩
    rfl
  | cons l ls ih =>
    have ih {fuel : Nat} := @ih (fun l hl => plain l (List.mem_cons_of_mem _ hl)) fuel
    have plainFirst := plain l List.mem_cons_self
    rw [write_cons, List.length_append] at h
    obtain ⟨fuel, rfl⟩ : ∃ n, fuel = n + 1 := ⟨fuel - 1, by omega⟩
    cases hs : l.statement? with
    | some s =>
      have loud : ¬ l.isSilent = true := by simp [Line.isSilent, hs]
      obtain ⟨a, x, e, ha⟩ := Line.exists_written hs
      rw [List.dropWhile_cons_of_neg loud, write_cons, e, List.cons_append,
        skipLines?_solid ha]
    | none =>
      have silent : l.isSilent = true := by simp [Line.isSilent, hs]
      rw [List.dropWhile_cons_of_pos silent]
      cases l with
      | blank => exact @ih (fuel + 1) (by simp [Line.written] at h; omega)
      | comment t =>
        have long : (Line.comment t).written.length = t.length + 3 := by simp [Line.written]
        obtain ⟨fuel, rfl⟩ : ∃ n, fuel = n + 1 := ⟨fuel - 1, by omega⟩
        have split : write (.comment t :: ls) = '#' :: ' ' :: (t ++ '\n' :: write ls) := by
          simp [write_cons, Line.written]
        have passed : skipLines? (fuel + 2) ('#' :: ' ' :: (t ++ '\n' :: write ls)) =
            (skipComment? ('#' :: ' ' :: (t ++ '\n' :: write ls))).bind (skipLines? (fuel + 1)) :=
          rfl
        rw [split, passed, skipComment?_written plainFirst, Option.bind_some]
        exact @ih (fuel + 1) (by omega)
      | header keys => cases hs
      | arrayHeader keys => cases hs
      | entry key item => cases hs

theorem statements?_succ (fuel : Nat) (t : Text) : statements? (fuel + 1) t =
    match skipLines? (t.length + 1) t with
    | none => none
    | some [] => some []
    | some t =>
      match statement? t with
      | none => none
      | some (s, r) =>
        match skipComment? (skipSpaces r) with
        | some [] => some [s]
        | some ('\n' :: r) => (statements? fuel r).map (s :: ·)
        | _ => none := rfl

/-- **A written settings file is read statement by statement.** -/
theorem statements?_write {ls : List Line} (plain : ∀ l ∈ ls, l.IsPlain) {fuel : Nat}
    (h : ls.length < fuel) : statements? fuel (write ls) = some (statements ls) := by
  induction ls generalizing fuel with
  | nil =>
    obtain ⟨fuel, rfl⟩ : ∃ n, fuel = n + 1 := ⟨fuel - 1, by omega⟩
    rfl
  | cons l ls ih =>
    have plainRest : ∀ l ∈ ls, l.IsPlain := fun l hl => plain l (List.mem_cons_of_mem _ hl)
    have ih {fuel : Nat} := @ih plainRest fuel
    obtain ⟨fuel, rfl⟩ : ∃ n, fuel = n + 1 := ⟨fuel - 1, by omega⟩
    have skipped := skipLines?_write plain (Nat.lt_succ_self (write (l :: ls)).length)
    cases hs : l.statement? with
    | none =>
      have silent : l.isSilent = true := by simp [Line.isSilent, hs]
      rw [List.dropWhile_cons_of_pos silent] at skipped
      have same := skipLines?_write plainRest (Nat.lt_succ_self (write ls).length)
      have rest := @ih (fuel + 1) (by simp at h; omega)
      rw [statements?_succ, same] at rest
      rw [statements?_succ, skipped, rest, statements, statements, List.filterMap_cons, hs]
    | some s =>
      have loud : ¬ l.isSilent = true := by simp [Line.isSilent, hs]
      have read := Line.statement?_written (plain l List.mem_cons_self) hs (write ls)
      obtain ⟨a, x, e, ha⟩ := Line.exists_written hs
      rw [List.dropWhile_cons_of_neg loud] at skipped
      rw [write_cons, e, List.cons_append] at skipped
      rw [e, List.cons_append] at read
      rw [write_cons, e, List.cons_append, statements?_succ, skipped]
      have behind : skipComment? (skipSpaces ('\n' :: write ls)) = some ('\n' :: write ls) := rfl
      simp only [read, behind, @ih fuel (by simp at h; omega), Option.map_some, statements,
        List.filterMap_cons, hs]

/-! ## Line breaks -/

theorem unifyLineBreaks_eq {t : Text} (h : '\r' ∉ t) : unifyLineBreaks t = t := by
  fun_induction unifyLineBreaks t with
  | case1 => rfl
  | case2 r _ => simp at h
  | case3 c r _ ih => rw [ih fun hr => h (List.mem_cons_of_mem _ hr)]

theorem return_not_mem_escapedChar (c : Char) : '\r' ∉ escapedChar c := by
  have digits : ∀ n < 0x80, '\r' ∉ Text.hexDigits 4 n := by decide
  unfold escapedChar
  repeat' split
  all_goals try decide
  · rename_i coded
    simpa using digits c.toNat (by omega)
  · rename_i back _ _ _ _
    simpa using Ne.symm back

theorem return_not_mem_writeText (t : Text) : '\r' ∉ writeText t := by
  simp [writeText, return_not_mem_escapedChar]

theorem return_not_mem_writeKey (k : Text) : '\r' ∉ writeKey k := by
  unfold writeKey
  split
  · rename_i bare
    exact not_mem_of_all bare.2 (by decide)
  · exact return_not_mem_writeText k

theorem return_not_mem_writeKeys (ks : List Text) : '\r' ∉ Text.joinWith ['.'] (ks.map writeKey) :=
  Text.not_mem_joinWith (by decide) (List.forall_mem_map.2 fun k _ => return_not_mem_writeKey k)

theorem return_not_mem_item (item : Item) : '\r' ∉ item.written := by
  cases item with
  | text t => exact return_not_mem_writeText t
  | flag b => cases b <;> decide
  | number n => exact not_mem_of_all (all_isDigit_ofNat n) (by decide)
  | texts ts =>
    have pieces : '\r' ∉ Text.joinWith ", " (ts.map writeText) :=
      Text.not_mem_joinWith (by decide)
        (List.forall_mem_map.2 fun t _ => return_not_mem_writeText t)
    simpa [Item.written] using pieces

theorem return_not_mem_written {l : Line} (plain : l.IsPlain) : '\r' ∉ l.written := by
  cases l with
  | comment t => simpa [Line.written] using not_mem_of_all plain (by decide)
  | blank => decide
  | header ks => simpa [Line.written] using return_not_mem_writeKeys ks
  | arrayHeader ks => simpa [Line.written] using return_not_mem_writeKeys ks
  | entry key item =>
    simp [Line.written, return_not_mem_writeKey, return_not_mem_item]

/-! ## Settings files -/

theorem Line.written_ne_nil (l : Line) : l.written ≠ [] := by
  cases l <;> simp [written]

/-- **A written settings file says what its lines state.** -/
theorem read_write {ls : List Line} (plain : ∀ l ∈ ls, l.IsPlain) {table : Table}
    (h : meaning? (statements ls) = some table) : read (write ls) = .ok table := by
  have unified : unifyLineBreaks (write ls) = write ls := by
    refine unifyLineBreaks_eq fun mem => ?_
    obtain ⟨l, hl, mem⟩ := List.mem_flatMap.1 mem
    exact return_not_mem_written (plain l hl) mem
  have short : ls.length ≤ (write ls).length := length_le_flatMap Line.written_ne_nil ls
  have read := statements?_write plain (Nat.lt_succ_of_le short)
  rw [Toml.read, unified, read, Option.bind_some, h]

end Modulize.Toml

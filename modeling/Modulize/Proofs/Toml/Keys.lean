import Modulize.Proofs.Collections
import Modulize.Proofs.Text
import Modulize.Toml.Reader
import Modulize.Toml.Writer

/-!
# Written texts and keys are read back

A text within double quotes is read character by character: each escape stands for the character
that it was written for (`basicText?_escapedChar`), so that the whole text comes back, whatever
follows its quotes (`basicText?_writeText`, `quotedText?_writeText`). Keys are read up to a
character that cannot be part of them (`keyPart?_writeKey`, `key?_writeKeys`).
-/

namespace Modulize.Toml

/-! ## Texts within double quotes -/

/-- Four hexadecimal digits are written for a small number, and they are read as that number. -/
theorem hexNumber?_hexDigits :
    ∀ n < 0x80, (Text.hexDigits 4 n).length = 4 ∧
      Pattern.Notation.hexNumber? (Text.hexDigits 4 n) = some n := by
  decide

theorem escape?_hexDigits {c : Char} (h : c.toNat < 0x80) (r : Text) :
    escape? ('u' :: (Text.hexDigits 4 c.toNat ++ r)) = some (c, r) := by
  obtain ⟨length, number⟩ := hexNumber?_hexDigits c.toNat h
  have long : ¬ (Text.hexDigits 4 c.toNat ++ r).length < 4 := by
    rw [List.length_append]
    omega
  have valid : c.toNat < 0xd800 ∨ (0xdfff < c.toNat ∧ c.toNat < 0x110000) := by omega
  simp only [escape?, if_neg long, List.take_left' length, List.drop_left' length, number,
    Option.bind_some, if_pos valid, Char.ofNat_toNat]

theorem basicText?_backslash (fuel : Nat) (acc t : Text) :
    basicText? (fuel + 1) acc ('\\' :: t) =
      (escape? t).bind fun (c, r) => basicText? fuel (c :: acc) r := rfl

/-- A character that needs no escape stands for itself. -/
theorem basicText?_plain {c : Char} (quote : c ≠ '"') (backslash : c ≠ '\\')
    (allowed : isForbidden c = false) (fuel : Nat) (acc r : Text) :
    basicText? (fuel + 1) acc (c :: r) = basicText? fuel (c :: acc) r := by
  simp [basicText?, allowed]

/-- **A written character is read back.** -/
theorem basicText?_escapedChar (fuel : Nat) (acc : Text) (c : Char) (r : Text) :
    basicText? (fuel + 1) acc (escapedChar c ++ r) = basicText? fuel (c :: acc) r := by
  have named {n : Nat} (h : c.toNat = n) : Char.ofNat n = c := by rw [← h, Char.ofNat_toNat]
  unfold escapedChar
  repeat' split
  case _ quote => subst quote; rfl
  case _ backslash => subst backslash; rfl
  case _ newline => subst newline; rfl
  case _ back => subst back; rfl
  case _ tab => subst tab; rfl
  case _ backspace => rw [← named backspace]; rfl
  case _ feed => rw [← named feed]; rfl
  case _ coded =>
    have small : c.toNat < 0x80 := by omega
    change basicText? (fuel + 1) acc ('\\' :: 'u' :: (Text.hexDigits 4 c.toNat ++ r)) = _
    rw [basicText?_backslash, escape?_hexDigits small, Option.bind_some]
  case _ quote backslash newline back tab backspace feed plain =>
    have allowed : isForbidden c = false := by
      simp only [isForbidden, Bool.or_eq_false_iff, Bool.and_eq_false_iff, decide_eq_false_iff_not]
      omega
    exact basicText?_plain quote backslash allowed fuel acc r

theorem escapedChar_ne_nil (c : Char) : escapedChar c ≠ [] := by
  unfold escapedChar
  repeat' split
  all_goals simp

/-- **A written text is read back** up to its closing quote. -/
theorem basicText?_flatMap (t acc r : Text) {fuel : Nat} (h : t.length < fuel) :
    basicText? fuel acc (t.flatMap escapedChar ++ '"' :: r) = some (acc.reverse ++ t, r) := by
  induction t generalizing acc fuel with
  | nil =>
    obtain ⟨fuel, rfl⟩ := Nat.exists_eq_add_of_lt h
    simp [basicText?]
  | cons c t ih =>
    obtain ⟨fuel, rfl⟩ : ∃ n, fuel = n + 1 := ⟨fuel - 1, by omega⟩
    rw [List.flatMap_cons, List.append_assoc, basicText?_escapedChar, ih _ (by simpa using h)]
    simp

theorem writeText_eq (t r : Text) :
    writeText t ++ r = '"' :: (t.flatMap escapedChar ++ '"' :: r) := by
  simp [writeText]

theorem basicText?_writeText (t r : Text) :
    basicText? ((t.flatMap escapedChar ++ '"' :: r).length + 1) []
      (t.flatMap escapedChar ++ '"' :: r) = some (t, r) := by
  have long := length_le_flatMap escapedChar_ne_nil t
  refine basicText?_flatMap t [] r ?_
  rw [List.length_append]
  omega

/-- A quote that two more do not follow begins a text on one line. -/
theorem quotedText?_quote {t : Text} (h : ∀ r, t ≠ '"' :: '"' :: r) :
    quotedText? ('"' :: t) = basicText? (t.length + 1) [] t := by
  unfold quotedText?
  split <;> simp_all

/-- **A written text is read back**, unless another quote follows it. -/
theorem quotedText?_writeText (t : Text) {r : Text} (hr : ∀ a ∈ r.head?, a ≠ '"') :
    quotedText? (writeText t ++ r) = some (t, r) := by
  have single : ∀ r', t.flatMap escapedChar ++ '"' :: r ≠ '"' :: '"' :: r' := by
    intro r' e
    cases t with
    | nil =>
      obtain rfl : r = '"' :: r' := (List.cons.inj e).2
      exact hr '"' rfl rfl
    | cons c t =>
      have first : (escapedChar c).head? ≠ some '"' := by
        unfold escapedChar
        repeat' split
        all_goals simp_all
      obtain ⟨a, x, hx⟩ := List.exists_cons_of_ne_nil (escapedChar_ne_nil c)
      rw [List.flatMap_cons, hx, List.cons_append] at e
      obtain ⟨rfl, -⟩ := List.cons.inj e
      exact first (by rw [hx]; rfl)
  rw [writeText_eq, quotedText?_quote single]
  exact basicText?_writeText t r

/-! ## Keys -/

/-- A part of a key without quotes ends before a character that cannot stand in it. -/
theorem keyPart?_bare {k r : Text} (hne : k ≠ []) (h : k.all isBare = true)
    (hr : ∀ a ∈ r.head?, isBare a = false) : keyPart? (k ++ r) = some (k, r) := by
  obtain ⟨a, x, rfl⟩ := List.exists_cons_of_ne_nil hne
  have ha : isBare a = true := (Bool.and_eq_true_iff.1 h).1
  have double : a ≠ '"' := by
    rintro rfl
    exact absurd ha (by decide)
  have single : a ≠ '\'' := by
    rintro rfl
    exact absurd ha (by decide)
  rw [keyPart?, takeWhile_append_of_all h hr]
  · simp
  · rintro r' e
    exact double (List.cons.inj e).1
  · rintro r' e
    exact single (List.cons.inj e).1

/-- **A written part of a key is read back.** -/
theorem keyPart?_writeKey (k : Text) {r : Text} (hr : ∀ a ∈ r.head?, isBare a = false) :
    keyPart? (writeKey k ++ r) = some (k, r) := by
  unfold writeKey
  split
  · rename_i bare
    exact keyPart?_bare bare.1 bare.2 hr
  · rw [writeText_eq]
    exact basicText?_writeText k r

/-- What may follow a key: no character of a key, nor anything that begins with a dot. -/
def EndsKey (r : Text) : Prop :=
  (∀ a ∈ r.head?, isBare a = false) ∧ ∀ a ∈ (skipSpaces r).head?, a ≠ '.'

theorem key?_succ (fuel : Nat) (t : Text) : key? (fuel + 1) t =
    (keyPart? t).bind fun (part, r) =>
      match skipSpaces r with
      | '.' :: r => (key? fuel (skipSpaces r)).map fun (parts, r) => (part :: parts, r)
      | r => some ([part], r) := rfl

/-- A written key begins with a quote or with a character of a key. -/
theorem exists_writeKey (k : Text) : ∃ a x, writeKey k = a :: x ∧ (a = '"' ∨ isBare a = true) := by
  unfold writeKey
  split
  · rename_i bare
    obtain ⟨a, x, rfl⟩ := List.exists_cons_of_ne_nil bare.1
    exact ⟨a, x, rfl, Or.inr (Bool.and_eq_true_iff.1 bare.2).1⟩
  · exact ⟨'"', _, rfl, Or.inl rfl⟩

/-- A written key with its dots. -/
def writeKeys (ks : List Text) : Text := Text.joinWith ['.'] (ks.map writeKey)

theorem writeKeys_singleton (k : Text) : writeKeys [k] = writeKey k := rfl

theorem writeKeys_cons_cons (k k' : Text) (ks : List Text) :
    writeKeys (k :: k' :: ks) = writeKey k ++ '.' :: writeKeys (k' :: ks) := by
  simp [writeKeys, Text.joinWith]

theorem exists_writeKeys (k : Text) (ks : List Text) :
    ∃ a x, writeKeys (k :: ks) = a :: x ∧ (a = '"' ∨ isBare a = true) := by
  obtain ⟨a, x, e, ha⟩ := exists_writeKey k
  cases ks with
  | nil => exact ⟨a, x, e, ha⟩
  | cons k' ks =>
    refine ⟨a, x ++ '.' :: writeKeys (k' :: ks), ?_, ha⟩
    rw [writeKeys_cons_cons, e, List.cons_append]

theorem length_le_writeKeys (ks : List Text) : ks.length ≤ (writeKeys ks).length + 1 := by
  have h := Text.length_le_joinWith (List.cons_ne_nil '.' []) (ks.map writeKey)
  rwa [List.length_map] at h

theorem ne_of_keyStart {a b : Char} (h : a = '"' ∨ isBare a = true) (hb : b ≠ '"')
    (hb' : isBare b = false) : a ≠ b := by
  rintro rfl
  rcases h with h | h
  · exact hb h
  · simp [hb'] at h

theorem skipSpaces_cons {a : Char} (h : isSpaceOrTab a = false) (t : Text) :
    skipSpaces (a :: t) = a :: t := List.dropWhile_cons_of_neg (by simp [h])

/-- A written key does not begin with a space. -/
theorem skipSpaces_writeKeys {ks : List Text} (hne : ks ≠ []) (r : Text) :
    skipSpaces (writeKeys ks ++ r) = writeKeys ks ++ r := by
  obtain ⟨k, ks, rfl⟩ := List.exists_cons_of_ne_nil hne
  obtain ⟨a, x, e, ha⟩ := exists_writeKeys k ks
  have space := ne_of_keyStart ha (b := ' ') (by decide) (by decide)
  have tab := ne_of_keyStart ha (b := '\t') (by decide) (by decide)
  rw [e, List.cons_append]
  exact skipSpaces_cons (by simp [isSpaceOrTab, space, tab]) _

/-- **A written key is read back** with its dots. -/
theorem key?_writeKeys {ks : List Text} (hne : ks ≠ []) {r : Text} (hr : EndsKey r) {fuel : Nat}
    (h : ks.length ≤ fuel) : key? fuel (writeKeys ks ++ r) = some (ks, skipSpaces r) := by
  induction ks generalizing fuel with
  | nil => exact absurd rfl hne
  | cons k ks ih =>
    obtain ⟨fuel, rfl⟩ : ∃ n, fuel = n + 1 := ⟨fuel - 1, by simp at h; omega⟩
    cases ks with
    | nil =>
      rw [writeKeys_singleton, key?_succ, keyPart?_writeKey k hr.1, Option.bind_some]
      dsimp only
      split
      · rename_i r' e
        exact absurd rfl (hr.2 '.' (by rw [e]; rfl))
      · rfl
    | cons k' ks =>
      have rest : key? fuel (writeKeys (k' :: ks) ++ r) = some (k' :: ks, skipSpaces r) :=
        ih (by simp) (by simpa using h)
      have dot : isBare '.' = false := by decide
      rw [writeKeys_cons_cons, List.append_assoc, key?_succ,
        keyPart?_writeKey k (by simpa using dot), Option.bind_some]
      simp only [List.cons_append, skipSpaces_cons (show isSpaceOrTab '.' = false by decide),
        skipSpaces_writeKeys (List.cons_ne_nil k' ks), rest, Option.map_some]

end Modulize.Toml

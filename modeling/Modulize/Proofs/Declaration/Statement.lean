import Modulize.Declaration.Header
import Modulize.Proofs.Pattern.Lines
import Modulize.Proofs.Qualified.Spelling

/-!
# Header statements

How the statements are written by which a file provides and requires namespaces. A call below the
root (`IsCall`) spells the root, a dot, a keyword and a quoted name in parentheses; a require may
begin with the declaration of what it binds (`IsBinder`). Blanks and line breaks are free between
these parts.

A text begins with one such statement at most (`IsCall.unique`, `IsRequire.unique`), and not with
statements of both kinds (`IsCall.not_isBinder`).
-/

namespace Modulize.Declaration

open Pattern Qualified

/-- Characters of a dotted name. -/
def isDotted (c : Char) : Bool := isIdent c || c == '.'

/-- Characters between which a name is quoted. -/
def isNameQuote (c : Char) : Bool := c == '\'' || c == '"'

/-- One or more characters of dotted names. -/
def IsDottedName (name : Text) : Prop := name ≠ [] ∧ name.all isDotted = true

instance (name : Text) : Decidable (IsDottedName name) := inferInstanceAs (Decidable (_ ∧ _))

/-- A quoted name in parentheses. -/
def IsArgument (name s : Text) : Prop :=
  IsDottedName name ∧ ∃ b₁ b₂ b₃ q q', b₁.all isBlank = true ∧ b₂.all isBlank = true ∧
    b₃.all isBlank = true ∧ isNameQuote q = true ∧ isNameQuote q' = true ∧
    s = b₁ ++ '(' :: (b₂ ++ q :: (name ++ q' :: (b₃ ++ [')'])))

/-- A call of the function `keyword` below the root with a quoted name. -/
def IsCall (root keyword name s : Text) : Prop :=
  ∃ path gap argument, Spells (segments root) path ∧ IsGap gap ∧ IsArgument name argument ∧
    s = path ++ (gap ++ (keyword ++ argument))

/-- The keywords that provide a namespace. -/
def provideWords : List Text := ["provide", "module"]

/-- The keywords that require a namespace. -/
def requireWords : List Text := ["require", "requireType", "forwardDeclare"]

/-- The words that declare a variable. -/
def declarationWords : List Text := ["const", "let", "var"]

/-- Names in braces, or one name. -/
def IsTarget (target : Text) : Prop :=
  (∃ inner, '}' ∉ inner ∧ target = '{' :: (inner ++ ['}'])) ∨ IsIdentifier target

/-- The declaration of what a require binds, up to the call. -/
def IsBinder (target s : Text) : Prop :=
  IsTarget target ∧ ∃ word b₁ b₂ b₃, word ∈ declarationWords ∧ b₁ ≠ [] ∧ b₁.all isBlank = true ∧
    b₂.all isBlank = true ∧ b₃.all isBlank = true ∧
    s = word ++ (b₁ ++ (target ++ (b₂ ++ '=' :: b₃)))

/-- What stands before the call of a require: a declaration of what it binds, if it binds
anything. -/
def IsOpening (target : Option Text) (s : Text) : Prop :=
  match target with
  | none => s = []
  | some target => IsBinder target s

/-- A require up to its closing parenthesis. -/
def IsRequire (root : Text) (target : Option Text) (keyword name s : Text) : Prop :=
  ∃ opening call, IsOpening target opening ∧ keyword ∈ requireWords ∧
    IsCall root keyword name call ∧ s = opening ++ call

/-- A provide up to its closing parenthesis. -/
def IsProvide (root keyword name s : Text) : Prop :=
  keyword ∈ provideWords ∧ IsCall root keyword name s

/-! ## The usual spelling -/

/-- A call without blanks, with its semicolon. -/
def callLine (root keyword name : Text) : Text :=
  root ++ (['.'] ++ (keyword ++ '(' :: '\'' :: (name ++ ['\'', ')']))) ++ [';']

theorem isCall_usual (root keyword : Text) {name : Text} (h : IsDottedName name) :
    IsCall root keyword name
      (root ++ (['.'] ++ (keyword ++ '(' :: '\'' :: (name ++ ['\'', ')'])))) := by
  have path : Spells (segments root) root := by
    have h := spells_joinWith (segments root)
    rwa [segments, joinWith_splitOn] at h
  refine ⟨root, ['.'], '(' :: '\'' :: (name ++ ['\'', ')']), path, ⟨[], [], rfl, rfl, rfl⟩, ?_, rfl⟩
  exact ⟨h, [], [], [], '\'', '\'', rfl, rfl, rfl, by decide, by decide, rfl⟩

/-! ## Characters and words -/

theorem isDotted_eq_false_of_isNameQuote {a : Char} (h : isNameQuote a = true) :
    isDotted a = false := by
  have single : isDotted '\'' = false := by decide
  have double : isDotted '"' = false := by decide
  simp only [isNameQuote, Bool.or_eq_true, beq_iff_eq] at h
  rcases h with rfl | rfl
  · exact single
  · exact double

theorem isBlank_eq_false_of_isNameQuote {a : Char} (h : isNameQuote a = true) :
    isBlank a = false := by
  have single : isBlank '\'' = false := by decide
  have double : isBlank '"' = false := by decide
  simp only [isNameQuote, Bool.or_eq_true, beq_iff_eq] at h
  rcases h with rfl | rfl
  · exact single
  · exact double

theorem isBlank_eq_false_of_isIdent {a : Char} (h : isIdent a = true) : isBlank a = false := by
  cases hb : isBlank a with
  | false => rfl
  | true => simp [isIdent_eq_false_of_isBlank hb] at h

theorem guards_eq_false_of_isBlank {a : Char} (h : isBlank a = true) : guards a = false := by
  have single : isBlank '\'' = false := by decide
  have double : isBlank '"' = false := by decide
  have slash : isBlank '/' = false := by decide
  simp only [guards, isIdent_eq_false_of_isBlank h, Bool.or_eq_false_iff, beq_eq_false_iff_ne]
  refine ⟨⟨⟨trivial, ?_⟩, ?_⟩, ?_⟩ <;> rintro rfl <;> simp_all

theorem isIdentifier_of_mem_provideWords : ∀ w ∈ provideWords, IsIdentifier w := by decide

theorem isIdentifier_of_mem_requireWords : ∀ w ∈ requireWords, IsIdentifier w := by decide

theorem isIdentifier_of_mem_declarationWords : ∀ w ∈ declarationWords, IsIdentifier w := by decide

theorem not_mem_requireWords : ∀ w ∈ provideWords, w ∉ requireWords := by decide

/-! ## Beginnings of the parts -/

theorem forall_head_cons {p : Char → Bool} {a : Char} (h : p a = false) (t : Text) :
    ∀ b ∈ (a :: t).head?, p b = false := by
  simpa using h

/-- What follows some blanks begins with a blank or with its own first character. -/
theorem head_blanks_append {p : Char → Bool} {b t : Text} (hb : b.all isBlank = true)
    (blank : ∀ a, isBlank a = true → p a = false) (ht : ∀ a ∈ t.head?, p a = false) :
    ∀ a ∈ (b ++ t).head?, p a = false := by
  cases b with
  | nil => exact ht
  | cons a b => exact forall_head_cons (blank a (Bool.and_eq_true_iff.1 hb).1) _

theorem head_isIdent {s : Text} (h : IsIdentifier s) (t : Text) :
    ∀ a ∈ (s ++ t).head?, isIdent a = true := by
  obtain ⟨a, r, rfl, ha⟩ := h.exists_cons
  simpa using ha

theorem clear_gap_append {g : Text} (h : IsGap g) (t : Text) : Clear (g ++ t) := by
  obtain ⟨b, b', rfl, hb, -⟩ := h
  have dot : guards '.' = false := by decide
  rw [List.append_assoc]
  exact head_blanks_append hb (fun _ => guards_eq_false_of_isBlank) (forall_head_cons dot _)

/-- An argument does not begin with a character of an identifier. -/
theorem IsArgument.head_not_isIdent {name s : Text} (h : IsArgument name s) (t : Text) :
    ∀ a ∈ (s ++ t).head?, isIdent a = false := by
  obtain ⟨-, b₁, b₂, b₃, q, q', hb₁, -, -, -, -, rfl⟩ := h
  have paren : isIdent '(' = false := by decide
  rw [List.append_assoc]
  exact head_blanks_append hb₁ (fun _ => isIdent_eq_false_of_isBlank) (forall_head_cons paren _)

/-- A target begins with a character that is neither a blank nor a dot. -/
theorem IsTarget.exists_cons {target : Text} (h : IsTarget target) :
    ∃ a r, target = a :: r ∧ isBlank a = false ∧ a ≠ '.' := by
  rcases h with ⟨inner, -, rfl⟩ | h
  · exact ⟨'{', _, rfl, by decide, by decide⟩
  · obtain ⟨a, r, rfl, ha⟩ := h.exists_cons
    have dot : isIdent '.' = false := by decide
    refine ⟨a, r, rfl, isBlank_eq_false_of_isIdent ha, ?_⟩
    rintro rfl
    simp [dot] at ha

/-- A call begins with the first segment of the root, with a gap behind it. -/
theorem IsCall.exists_head {root keyword name s : Text} (h : IsCall root keyword name s) :
    ∃ first gap rest, (segments root).head? = some first ∧ IsGap gap ∧
      s = first ++ (gap ++ rest) := by
  obtain ⟨path, gap, argument, hp, hg, -, rfl⟩ := h
  have hne := segments_ne_nil root
  generalize segments root = ss at hp hne ⊢
  cases hp with
  | nothing => exact absurd rfl hne
  | last => exact ⟨_, gap, _, rfl, hg, rfl⟩
  | @dot first _ _ gap' piece hg' _ =>
    exact ⟨first, gap', piece ++ (gap ++ (keyword ++ argument)), rfl, hg', by simp⟩

/-! ## Uniqueness -/

theorem IsArgument.unique {name name' s s' t t' : Text} (h : IsArgument name s)
    (h' : IsArgument name' s') (e : s ++ t = s' ++ t') : name = name' ∧ s = s' := by
  obtain ⟨hn, b₁, b₂, b₃, q, r, hb₁, hb₂, hb₃, hq, hr, rfl⟩ := h
  obtain ⟨hn', b₁', b₂', b₃', q', r', hb₁', hb₂', hb₃', hq', hr', rfl⟩ := h'
  have opening : isBlank '(' = false := by decide
  have closing : isBlank ')' = false := by decide
  simp only [List.append_assoc, List.cons_append, List.nil_append] at e
  obtain ⟨rfl, e₁⟩ := append_inj_of_all hb₁ hb₁' (forall_head_cons opening _)
    (forall_head_cons opening _) e
  obtain ⟨rfl, e₂⟩ := append_inj_of_all hb₂ hb₂'
    (forall_head_cons (isBlank_eq_false_of_isNameQuote hq) _)
    (forall_head_cons (isBlank_eq_false_of_isNameQuote hq') _) (List.cons.inj e₁).2
  obtain ⟨rfl, e₃⟩ := List.cons.inj e₂
  obtain ⟨rfl, e₄⟩ := append_inj_of_all hn.2 hn'.2
    (forall_head_cons (isDotted_eq_false_of_isNameQuote hr) _)
    (forall_head_cons (isDotted_eq_false_of_isNameQuote hr') _) e₃
  obtain ⟨rfl, e₅⟩ := List.cons.inj e₄
  obtain ⟨rfl, -⟩ := append_inj_of_all hb₃ hb₃' (forall_head_cons closing _)
    (forall_head_cons closing _) e₅
  exact ⟨rfl, rfl⟩

/-- **A text begins with one call at most.** -/
theorem IsCall.unique {root keyword keyword' name name' s s' t t' : Text}
    (hroot : IsNamespace root) (hk : IsIdentifier keyword) (hk' : IsIdentifier keyword')
    (h : IsCall root keyword name s) (h' : IsCall root keyword' name' s')
    (e : s ++ t = s' ++ t') : keyword = keyword' ∧ name = name' ∧ s = s' := by
  obtain ⟨path, gap, argument, hp, hg, ha, rfl⟩ := h
  obtain ⟨path', gap', argument', hp', hg', ha', rfl⟩ := h'
  simp only [List.append_assoc] at e
  have paths := (hp.prefix_or_prefix hp' hroot hroot (clear_gap_append hg _).head_not_isIdent
    (clear_gap_append hg' _).head_not_isIdent e).2 rfl
  subst paths
  have ident {k x : Text} (hk : IsIdentifier k) : ∀ a ∈ (k ++ x).head?, (! isIdent a) = false := by
    intro a ha
    simp [head_isIdent hk x a ha]
  obtain ⟨rfl, e₁⟩ := append_inj_of_all hg.all_not_isIdent hg'.all_not_isIdent (ident hk)
    (ident hk') (List.append_cancel_left e)
  obtain ⟨rfl, e₂⟩ :=
    append_inj_of_all hk.2 hk'.2 (ha.head_not_isIdent t) (ha'.head_not_isIdent t') e₁
  obtain ⟨rfl, rfl⟩ := ha.unique ha' e₂
  exact ⟨rfl, rfl, rfl⟩

/-- A text does not begin with a call and with the declaration of what a require binds. -/
theorem IsCall.not_isBinder {root keyword name target s s' t t' : Text} (hroot : IsNamespace root)
    (h : IsCall root keyword name s) (h' : IsBinder target s') : s ++ t ≠ s' ++ t' := by
  intro e
  obtain ⟨first, gap, rest, hfirst, hg, rfl⟩ := h.exists_head
  obtain ⟨htarget, word, b₁, b₂, b₃, hw, hne, hb₁, -, -, rfl⟩ := h'
  obtain ⟨b, b', rfl, hb, -⟩ := hg
  obtain ⟨a, r, rfl, ha, hdot⟩ := htarget.exists_cons
  have hfirst := (hroot first (List.mem_of_mem_head? hfirst)).2
  have hword := (isIdentifier_of_mem_declarationWords word hw).2
  have dot : isBlank '.' = false := by decide
  have dot' : isIdent '.' = false := by decide
  simp only [List.append_assoc, List.cons_append] at e
  obtain ⟨-, e⟩ := append_inj_of_all hfirst hword
    (head_blanks_append hb (fun _ => isIdent_eq_false_of_isBlank) (forall_head_cons dot' _))
    (by
      obtain ⟨c, b₁, rfl⟩ := List.exists_cons_of_ne_nil hne
      exact forall_head_cons (isIdent_eq_false_of_isBlank (Bool.and_eq_true_iff.1 hb₁).1) _) e
  obtain ⟨-, e⟩ := append_inj_of_all hb hb₁ (forall_head_cons dot _) (forall_head_cons ha _) e
  exact hdot (List.cons.inj e).1.symm

theorem IsTarget.unique {target target' t t' : Text} (h : IsTarget target) (h' : IsTarget target')
    (ht : ∀ a ∈ t.head?, isIdent a = false) (ht' : ∀ a ∈ t'.head?, isIdent a = false)
    (e : target ++ t = target' ++ t') : target = target' ∧ t = t' := by
  have brace : isIdent '{' = false := by decide
  have mixed {inner s x y : Text} (hs : IsIdentifier s) :
      '{' :: inner ++ x ≠ s ++ y := by
    intro e
    have := head_isIdent hs y '{' (by simp [← e])
    simp [brace] at this
  have inside {inner : Text} (h : '}' ∉ inner) : inner.all (· != '}') = true := by
    simp only [List.all_eq_true, bne_iff_ne]
    rintro a ha rfl
    exact h ha
  rcases h with ⟨inner, hi, rfl⟩ | h <;> rcases h' with ⟨inner', hi', rfl⟩ | h'
  · simp only [List.cons_append, List.append_assoc, List.nil_append] at e
    obtain ⟨rfl, e₁⟩ := append_inj_of_all (inside hi) (inside hi') (forall_head_cons (by simp) _)
      (forall_head_cons (by simp) _) (List.cons.inj e).2
    exact ⟨rfl, (List.cons.inj e₁).2⟩
  · exact absurd e (mixed h')
  · exact absurd e.symm (mixed h)
  · exact append_inj_of_all h.2 h'.2 ht ht' e

theorem IsBinder.unique {target target' s s' t t' : Text} (h : IsBinder target s)
    (h' : IsBinder target' s') (ht : ∀ a ∈ t.head?, isBlank a = false)
    (ht' : ∀ a ∈ t'.head?, isBlank a = false) (e : s ++ t = s' ++ t') :
    target = target' ∧ s = s' := by
  obtain ⟨htarget, word, b₁, b₂, b₃, hw, hne, hb₁, hb₂, hb₃, rfl⟩ := h
  obtain ⟨htarget', word', b₁', b₂', b₃', hw', hne', hb₁', hb₂', hb₃', rfl⟩ := h'
  have equals : isIdent '=' = false := by decide
  have equals' : isBlank '=' = false := by decide
  have behindWord {b : Text} (hne : b ≠ []) (hb : b.all isBlank = true) (x : Text) :
      ∀ a ∈ (b ++ x).head?, isIdent a = false := by
    obtain ⟨c, b, rfl⟩ := List.exists_cons_of_ne_nil hne
    exact forall_head_cons (isIdent_eq_false_of_isBlank (Bool.and_eq_true_iff.1 hb).1) _
  have beforeTarget {target : Text} (h : IsTarget target) (x : Text) :
      ∀ a ∈ (target ++ x).head?, isBlank a = false := by
    obtain ⟨a, r, rfl, ha, -⟩ := h.exists_cons
    exact forall_head_cons ha _
  have behindTarget {b : Text} (hb : b.all isBlank = true) (x : Text) :
      ∀ a ∈ (b ++ '=' :: x).head?, isIdent a = false :=
    head_blanks_append hb (fun _ => isIdent_eq_false_of_isBlank) (forall_head_cons equals _)
  simp only [List.append_assoc, List.cons_append] at e
  obtain ⟨rfl, e₁⟩ := append_inj_of_all (isIdentifier_of_mem_declarationWords word hw).2
    (isIdentifier_of_mem_declarationWords word' hw').2 (behindWord hne hb₁ _)
    (behindWord hne' hb₁' _) e
  obtain ⟨rfl, e₂⟩ :=
    append_inj_of_all hb₁ hb₁' (beforeTarget htarget _) (beforeTarget htarget' _) e₁
  obtain ⟨rfl, e₃⟩ := htarget.unique htarget' (behindTarget hb₂ _) (behindTarget hb₂' _) e₂
  obtain ⟨rfl, e₄⟩ := append_inj_of_all hb₂ hb₂' (forall_head_cons equals' _)
    (forall_head_cons equals' _) e₃
  obtain ⟨rfl, -⟩ := append_inj_of_all hb₃ hb₃' ht ht' (List.cons.inj e₄).2
  exact ⟨rfl, rfl⟩

theorem IsCall.head_not_isBlank {root keyword name s : Text} (hroot : IsNamespace root)
    (h : IsCall root keyword name s) (t : Text) : ∀ a ∈ (s ++ t).head?, isBlank a = false := by
  obtain ⟨first, gap, rest, hfirst, -, rfl⟩ := h.exists_head
  obtain ⟨a, r, rfl, ha⟩ := (hroot first (List.mem_of_mem_head? hfirst)).exists_cons
  exact forall_head_cons (isBlank_eq_false_of_isIdent ha) _

/-- **A text begins with one require at most.** -/
theorem IsRequire.unique {root keyword keyword' name name' s s' t t' : Text}
    {target target' : Option Text} (hroot : IsNamespace root)
    (h : IsRequire root target keyword name s) (h' : IsRequire root target' keyword' name' s')
    (e : s ++ t = s' ++ t') : target = target' ∧ keyword = keyword' ∧ name = name' ∧ s = s' := by
  obtain ⟨o, call, ho, hk, hc, rfl⟩ := h
  obtain ⟨o', call', ho', hk', hc', rfl⟩ := h'
  have hk := isIdentifier_of_mem_requireWords _ hk
  have hk' := isIdentifier_of_mem_requireWords _ hk'
  simp only [List.append_assoc] at e
  cases target with
  | none =>
    obtain rfl : o = [] := ho
    rw [List.nil_append] at e
    cases target' with
    | none =>
      obtain rfl : o' = [] := ho'
      obtain ⟨rfl, rfl, rfl⟩ := hc.unique hroot hk hk' hc' e
      exact ⟨rfl, rfl, rfl, rfl⟩
    | some target' => exact absurd e (hc.not_isBinder hroot ho')
  | some target =>
    cases target' with
    | none =>
      obtain rfl : o' = [] := ho'
      rw [List.nil_append] at e
      exact absurd e.symm (hc'.not_isBinder hroot ho)
    | some target' =>
      obtain ⟨rfl, rfl⟩ := IsBinder.unique ho ho' (hc.head_not_isBlank hroot t)
        (hc'.head_not_isBlank hroot t') e
      obtain ⟨rfl, rfl, rfl⟩ := hc.unique hroot hk hk' hc' (List.append_cancel_left e)
      exact ⟨rfl, rfl, rfl, rfl⟩

/-- A text does not begin with a provide and with a require. -/
theorem IsProvide.not_isRequire {root keyword keyword' name name' s s' t t' : Text}
    {target : Option Text} (hroot : IsNamespace root) (h : IsProvide root keyword name s)
    (h' : IsRequire root target keyword' name' s') : s ++ t ≠ s' ++ t' := by
  intro e
  obtain ⟨hk, hc⟩ := h
  obtain ⟨o, call, ho, hk', hc', rfl⟩ := h'
  rw [List.append_assoc] at e
  cases target with
  | none =>
    obtain rfl : o = [] := ho
    obtain ⟨rfl, -, -⟩ := hc.unique hroot (isIdentifier_of_mem_provideWords _ hk)
      (isIdentifier_of_mem_requireWords _ hk') hc' e
    exact not_mem_requireWords _ hk hk'
  | some target => exact hc.not_isBinder hroot ho e

end Modulize.Declaration

import BoomCore.Library.Text

/-!
# Looking up a key in the text of an object

The text of an object is `{`, its entries with commas between them, and `}`. An entry is a quoted
name, a colon and the text of a value. A search for a quoted key with a colon behind it passes over
a quoted text: a quote inside it stands behind a backslash, and what closes it is followed by a
comma or a bracket. It passes over a nested value whose names do not show the key. So it finds the
entry of the key, if it passes over what stands in front (`afterFirst_objectText`).
-/

set_option autoImplicit false
set_option relaxedAutoImplicit false

namespace BoomCore

/-! ### Texts -/

/-- A text in which every quote stands behind a backslash. -/
inductive Escaped : List Char → Prop
  | nil : Escaped []
  | plain {c : Char} {text : List Char} (hquote : c ≠ '"') (hslash : c ≠ '\\')
      (h : Escaped text) : Escaped (c :: text)
  | escape (c : Char) {text : List Char} (h : Escaped text) : Escaped ('\\' :: c :: text)

theorem Escaped.append {a b : List Char} (ha : Escaped a) (hb : Escaped b) : Escaped (a ++ b) := by
  induction ha with
  | nil => exact hb
  | plain hquote hslash _ ih => exact .plain hquote hslash ih
  | escape c _ ih => exact .escape c ih

/-- What stands behind a value. -/
def separators : List Char := [',', '}', ']']

/-- The characters that structure the text of an object. -/
def delimiters : List Char := ['"', '\\', ':'] ++ separators

/-- A key that is written without escapes. -/
def PlainKey (key : List Char) : Prop := ∀ c ∈ key, c ∉ delimiters

instance (key : List Char) : Decidable (PlainKey key) :=
  List.decidableBAll (· ∉ delimiters) key

theorem PlainKey.tail {c : Char} {key : List Char} (h : PlainKey (c :: key)) : PlainKey key :=
  fun d hd ↦ h d (List.mem_cons_of_mem c hd)

theorem PlainKey.quote_not_mem {key : List Char} (h : PlainKey key) : '"' ∉ key :=
  fun hmem ↦ h '"' hmem (by decide)

/-- No text starts both with a plain key and a quote, and with a delimiter that is not a quote. -/
theorem PlainKey.not_prefix {key text rest : List Char} {d : Char} (h : PlainKey key)
    (hmem : d ∈ delimiters) (hne : d ≠ '"') : ¬ key ++ '"' :: text <+: d :: rest := by
  cases key with
  | nil => exact fun hprefix ↦ hne (List.cons_prefix_cons.mp hprefix).1.symm
  | cons c key =>
    intro hprefix
    refine h c List.mem_cons_self ?_
    rw [(List.cons_prefix_cons.mp hprefix).1]
    exact hmem

/-- What is searched for: the key in quotes and a colon. -/
def keyNeedle (key : List Char) : List Char := '"' :: (key ++ ['"', ':'])

theorem keyNeedle_append (key text : List Char) :
    keyNeedle key ++ text = '"' :: (key ++ '"' :: ':' :: text) := by
  unfold keyNeedle
  rw [List.cons_append, List.append_assoc]
  rfl

/-- An entry: a name in quotes, a colon and the text of a value. -/
def entryText (entry : List Char × List Char) : List Char := keyNeedle entry.1 ++ entry.2

/-- Texts with commas between them, in brackets. -/
def bracketed (opening closing : Char) (texts : List (List Char)) : List Char :=
  opening :: ([','].intercalate texts ++ [closing])

def objectText (entries : List (List Char × List Char)) : List Char :=
  bracketed '{' '}' (entries.map entryText)

/-! ### Passing over a text -/

/-- The search for the key passes over a text in front of a separator. -/
def PassedOver (key text : List Char) : Prop :=
  ∀ (sep : Char) (rest : List Char), sep ∈ separators →
    afterFirst (keyNeedle key) (text ++ sep :: rest) = afterFirst (keyNeedle key) rest

section Pass

variable {key text rest : List Char} {sep : Char}

theorem separator_delimiter (hsep : sep ∈ separators) :
    sep ∈ delimiters ∧ sep ≠ '"' ∧ sep ≠ ':' := by
  have hall : separators.all fun s ↦ s ∈ delimiters ∧ s ≠ '"' ∧ s ≠ ':' := by decide
  exact of_decide_eq_true (List.all_eq_true.mp hall sep hsep)

/-- The search for a key goes on behind a character that is not a quote. -/
theorem afterFirst_keyNeedle_cons {c : Char} (hc : c ≠ '"') :
    afterFirst (keyNeedle key) (c :: rest) = afterFirst (keyNeedle key) rest :=
  afterFirst_cons fun hprefix ↦ hc (List.cons_prefix_cons.mp hprefix).1.symm

theorem passedOver_bare (h : '"' ∉ text) : PassedOver key text := by
  intro sep rest hsep
  exact (BoomCore.afterFirst_skip h).trans
    (afterFirst_keyNeedle_cons (separator_delimiter hsep).2.1)

/-- Inside a quoted text a key with its colon starts only where the text is the key. -/
theorem Escaped.not_prefix (h : Escaped text) (hkey : PlainKey key)
    (hstop : sep = ':' → key ≠ text) : ¬ key ++ ['"', ':'] <+: text ++ '"' :: sep :: rest := by
  induction h generalizing key with
  | nil =>
    cases key with
    | nil =>
      intro hprefix
      have htail : [':'] <+: sep :: rest := (List.cons_prefix_cons.mp hprefix).2
      exact hstop (List.cons_prefix_cons.mp htail).1.symm rfl
    | cons c key =>
      intro hprefix
      refine hkey c List.mem_cons_self ?_
      rw [(List.cons_prefix_cons.mp hprefix).1]
      decide
  | plain hquote _ _ ih =>
    cases key with
    | nil => exact fun hprefix ↦ hquote (List.cons_prefix_cons.mp hprefix).1.symm
    | cons c key =>
      intro hprefix
      obtain ⟨rfl, htail⟩ := List.cons_prefix_cons.mp hprefix
      exact ih hkey.tail (fun hcolon heq ↦ hstop hcolon (heq ▸ rfl)) htail
  | escape => exact hkey.not_prefix (by decide) (by decide)

/-- The search for a key goes through a quoted text, unless the text ends in a quote and the key. -/
theorem Escaped.afterFirst_skip (h : Escaped text) (hkey : PlainKey key)
    (hstop : sep = ':' → ¬ '"' :: key <:+ text) :
    afterFirst (keyNeedle key) (text ++ '"' :: sep :: rest) =
      afterFirst (keyNeedle key) ('"' :: sep :: rest) := by
  induction h with
  | nil => rfl
  | @plain c text hquote _ _ ih =>
    rw [List.cons_append, afterFirst_keyNeedle_cons hquote]
    exact ih fun hcolon hsuffix ↦ hstop hcolon (hsuffix.trans (List.suffix_cons c text))
  | @escape c text htext ih =>
    have htail : '"' :: key <:+ text → '"' :: key <:+ '\\' :: c :: text := fun hsuffix ↦
      (hsuffix.trans (List.suffix_cons c text)).trans (List.suffix_cons '\\' (c :: text))
    rw [List.cons_append, List.cons_append, afterFirst_keyNeedle_cons (by decide), afterFirst_cons]
    · exact ih fun hcolon hsuffix ↦ hstop hcolon (htail hsuffix)
    · intro hprefix
      obtain ⟨rfl, hrest⟩ := List.cons_prefix_cons.mp hprefix
      refine htext.not_prefix hkey (fun hcolon heq ↦ hstop hcolon ?_) hrest
      rw [heq]
      exact List.suffix_cons '\\' ('"' :: text)

theorem passedOver_quoted (h : Escaped text) (hkey : PlainKey key) :
    PassedOver key ('"' :: (text ++ ['"'])) := by
  intro sep rest hsep
  obtain ⟨hmem, hquote, hcolon⟩ := separator_delimiter hsep
  have hassoc : '"' :: (text ++ ['"']) ++ sep :: rest = '"' :: (text ++ '"' :: sep :: rest) := by
    rw [List.cons_append, List.append_assoc]
    rfl
  rw [hassoc, afterFirst_cons, h.afterFirst_skip hkey fun h ↦ absurd h hcolon, afterFirst_cons,
    afterFirst_keyNeedle_cons hquote]
  · exact fun hprefix ↦ hkey.not_prefix hmem hquote (List.cons_prefix_cons.mp hprefix).2
  · exact fun hprefix ↦ h.not_prefix hkey (fun h ↦ absurd h hcolon)
      (List.cons_prefix_cons.mp hprefix).2

/-- A name is passed over unless it is the key, or ends in a quote and the key. -/
theorem passedOver_entry {name : List Char} (hname : Escaped name) (hkey : PlainKey key)
    (hother : ¬ '"' :: key <:+ '"' :: name) (htext : PassedOver key text) :
    PassedOver key (entryText (name, text)) := by
  intro sep rest hsep
  have hne : key ≠ name := fun heq ↦ hother (heq ▸ List.suffix_rfl)
  have hends : ¬ '"' :: key <:+ name := fun hsuffix ↦
    hother (hsuffix.trans (List.suffix_cons '"' name))
  unfold entryText
  rw [List.append_assoc, keyNeedle_append, afterFirst_cons,
    hname.afterFirst_skip hkey fun _ ↦ hends, afterFirst_cons,
    afterFirst_keyNeedle_cons (by decide), htext sep rest hsep]
  · exact fun hprefix ↦
      hkey.not_prefix (by decide) (by decide) (List.cons_prefix_cons.mp hprefix).2
  · exact fun hprefix ↦ hname.not_prefix hkey (fun _ ↦ hne) (List.cons_prefix_cons.mp hprefix).2

/-- Texts with a closing bracket behind them, each of them passed over. -/
theorem afterFirst_intercalate {texts : List (List Char)} {closing : Char}
    (hclosing : closing ∈ separators) (h : ∀ text ∈ texts, PassedOver key text) :
    afterFirst (keyNeedle key) ([','].intercalate texts ++ closing :: rest) =
      afterFirst (keyNeedle key) rest := by
  induction texts with
  | nil => exact afterFirst_keyNeedle_cons (separator_delimiter hclosing).2.1
  | cons text texts ih =>
    have htext := h text List.mem_cons_self
    cases texts with
    | nil => exact (List.intercalate_singleton ▸ htext closing rest hclosing)
    | cons text' texts =>
      rw [List.intercalate_cons_cons, List.append_assoc, List.append_assoc]
      show afterFirst (keyNeedle key) (text ++ ',' :: _) = _
      rw [htext ',' _ (by decide)]
      exact ih fun other hother ↦ h other (List.mem_cons_of_mem _ hother)

theorem passedOver_bracketed {texts : List (List Char)} {opening closing : Char}
    (hopening : opening ≠ '"') (hclosing : closing ∈ separators)
    (h : ∀ text ∈ texts, PassedOver key text) :
    PassedOver key (bracketed opening closing texts) := by
  intro sep rest hsep
  unfold bracketed
  rw [List.cons_append, afterFirst_keyNeedle_cons hopening, List.append_assoc]
  show afterFirst (keyNeedle key) ([','].intercalate texts ++ closing :: ([] ++ sep :: rest)) = _
  rw [afterFirst_intercalate hclosing h]
  exact afterFirst_keyNeedle_cons (separator_delimiter hsep).2.1

end Pass

/-! ### Finding an entry -/

section Find

variable {key : List Char}

/-- Assumes: the search passes over the entries in front. What stands behind a key in the text of an
object is the text of its value, up to a separator. -/
theorem afterFirst_objectText {front back : List (List Char × List Char)} {text : List Char}
    (hfront : ∀ e ∈ front, PassedOver key (entryText e)) :
    ∃ sep rest, (sep = ',' ∨ sep = '}') ∧
      afterFirst (keyNeedle key) (objectText (front ++ (key, text) :: back)) =
        some (text ++ sep :: rest) := by
  unfold objectText bracketed
  rw [afterFirst_keyNeedle_cons (by decide)]
  induction front with
  | nil =>
    rw [List.nil_append]
    cases back with
    | nil =>
      refine ⟨'}', [], .inr rfl, ?_⟩
      rw [List.map_singleton, List.intercalate_singleton]
      unfold entryText
      rw [List.append_assoc]
      exact afterFirst_append _ _
    | cons e back =>
      refine ⟨',', [','].intercalate ((e :: back).map entryText) ++ ['}'], .inl rfl, ?_⟩
      rw [List.map_cons, List.map_cons, List.intercalate_cons_cons, List.append_assoc,
        List.append_assoc]
      unfold entryText
      rw [List.append_assoc]
      exact afterFirst_append _ _
  | cons e front ih =>
    have he := hfront e List.mem_cons_self
    have hrest := ih fun e' he' ↦ hfront e' (List.mem_cons_of_mem _ he')
    obtain ⟨e', entries, hentries⟩ :
        ∃ e' entries, front ++ (key, text) :: back = e' :: entries := by
      cases front with
      | nil => exact ⟨_, _, rfl⟩
      | cons e' front => exact ⟨_, _, rfl⟩
    rw [List.cons_append, List.map_cons]
    rw [hentries, List.map_cons] at hrest ⊢
    rw [List.intercalate_cons_cons, List.append_assoc, List.append_assoc]
    show ∃ sep rest, _ ∧ afterFirst (keyNeedle key) (entryText e ++ ',' :: _) = _
    rw [he ',' _ (by decide)]
    exact hrest

end Find

end BoomCore

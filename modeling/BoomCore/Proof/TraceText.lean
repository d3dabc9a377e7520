import BoomCore.Library.KeyedText
import BoomCore.Model.TraceJson
import BoomCore.Model.TraceJsonUtil

/-!
# What the C++ comparator cuts out of a JSON line

The text of a dictionary is the text of an object, so the search for a key finds its entry, and the
text that is cut out is the plain text of the value. Plain texts of the values that signatures hold
are read back, so they differ when the values do.
-/

set_option autoImplicit false
set_option relaxedAutoImplicit false

namespace BoomCore.Trace

/-! ### Escapes -/

theorem escaped_of_plain {text : List Char} (h : ∀ c ∈ text, c ≠ '"' ∧ c ≠ '\\') :
    Escaped text := by
  induction text with
  | nil => exact .nil
  | cons c text ih =>
    have hc := h c List.mem_cons_self
    exact .plain hc.1 hc.2 (ih fun d hd ↦ h d (List.mem_cons_of_mem _ hd))

theorem digitChar_plain {d : ℕ} (hd : d < 16) :
    Nat.digitChar d ≠ '"' ∧ Nat.digitChar d ≠ '\\' ∧ Nat.digitChar d ≠ ',' ∧
      Nat.digitChar d ≠ '}' ∧ Nat.digitChar d ≠ '|' ∧ Nat.digitChar d ≠ '\n' ∧
      Nat.digitChar d ≠ '-' ∧ escapeChar (Nat.digitChar d) = [Nat.digitChar d] := by
  revert d
  decide

theorem escaped_unicodeEscape (unit : ℕ) : Escaped (unicodeEscape unit) := by
  refine .escape 'u' (escaped_of_plain fun c hc ↦ ?_)
  obtain ⟨d, hd, rfl⟩ := mem_leftpad_toDigits (by decide) hc
  exact ⟨(digitChar_plain hd).1, (digitChar_plain hd).2.1⟩

theorem newline_not_mem_unicodeEscape (unit : ℕ) : '\n' ∉ unicodeEscape unit := by
  intro hmem
  rcases List.mem_cons.mp hmem with h | hmem
  · exact absurd h (by decide)
  rcases List.mem_cons.mp hmem with h | hmem
  · exact absurd h (by decide)
  obtain ⟨d, hd, heq⟩ := mem_leftpad_toDigits (by decide) hmem
  exact (digitChar_plain hd).2.2.2.2.2.1 heq.symm

/-- What a character is written as: itself, one escape, or the escapes of one or two code units. -/
theorem escapeChar_cases (c : Char) :
    (c ≠ '"' ∧ c ≠ '\\' ∧ c ≠ '\n' ∧ escapeChar c = [c]) ∨
      (∃ d, d ≠ '\n' ∧ (d = '"' → c = '"') ∧ escapeChar c = ['\\', d]) ∨
      (∃ u, escapeChar c = unicodeEscape u) ∨
      ∃ u v, escapeChar c = unicodeEscape u ++ unicodeEscape v := by
  unfold escapeChar
  by_cases hquote : c = '"'
  · exact .inr (.inl ⟨'"', by decide, fun _ ↦ hquote, if_pos hquote⟩)
  by_cases hslash : c = '\\'
  · exact .inr (.inl ⟨'\\', by decide, nofun, by rw [if_neg hquote, if_pos hslash]⟩)
  by_cases hnewline : c = '\n'
  · exact .inr (.inl ⟨'n', by decide, nofun, by rw [if_neg hquote, if_neg hslash, if_pos hnewline]⟩)
  rw [if_neg hquote, if_neg hslash, if_neg hnewline]
  by_cases hreturn : c = '\r'
  · exact .inr (.inl ⟨'r', by decide, nofun, if_pos hreturn⟩)
  rw [if_neg hreturn]
  by_cases htab : c = '\t'
  · exact .inr (.inl ⟨'t', by decide, nofun, if_pos htab⟩)
  rw [if_neg htab]
  by_cases hback : c.toNat = 0x08
  · exact .inr (.inl ⟨'b', by decide, nofun, if_pos hback⟩)
  rw [if_neg hback]
  by_cases hfeed : c.toNat = 0x0C
  · exact .inr (.inl ⟨'f', by decide, nofun, if_pos hfeed⟩)
  rw [if_neg hfeed]
  by_cases hprint : 0x20 ≤ c.toNat ∧ c.toNat ≤ 0x7E
  · exact .inl ⟨hquote, hslash, hnewline, if_pos hprint⟩
  rw [if_neg hprint]
  by_cases hbmp : c.toNat < 0x10000
  · exact .inr (.inr (.inl ⟨c.toNat, if_pos hbmp⟩))
  · exact .inr (.inr (.inr ⟨_, _, if_neg hbmp⟩))

theorem escaped_escapeChar (c : Char) : Escaped (escapeChar c) := by
  rcases escapeChar_cases c with
    ⟨hquote, hslash, -, h⟩ | ⟨d, -, -, h⟩ | ⟨u, h⟩ | ⟨u, v, h⟩ <;> rw [h]
  · exact .plain hquote hslash .nil
  · exact .escape d .nil
  · exact escaped_unicodeEscape u
  · exact (escaped_unicodeEscape u).append (escaped_unicodeEscape v)

theorem newline_not_mem_escapeChar (c : Char) : '\n' ∉ escapeChar c := by
  rcases escapeChar_cases c with
    ⟨-, -, hnewline, h⟩ | ⟨d, hd, -, h⟩ | ⟨u, h⟩ | ⟨u, v, h⟩ <;> rw [h]
  · exact fun hmem ↦ hnewline (List.mem_singleton.mp hmem).symm
  · intro hmem
    rcases List.mem_cons.mp hmem with heq | hmem
    · exact absurd heq (by decide)
    · exact hd (List.mem_singleton.mp hmem).symm
  · exact newline_not_mem_unicodeEscape u
  · rw [List.mem_append, not_or]
    exact ⟨newline_not_mem_unicodeEscape u, newline_not_mem_unicodeEscape v⟩

theorem escaped_escapeString (s : String) : Escaped (escapeString s) := by
  unfold escapeString
  induction s.toList with
  | nil => exact .nil
  | cons c text ih => exact (escaped_escapeChar c).append ih

theorem newline_not_mem_jsonString (s : String) : '\n' ∉ jsonString s := by
  unfold jsonString escapeString
  rw [List.mem_cons, List.mem_append, not_or, not_or]
  refine ⟨by decide, fun hmem ↦ ?_, by decide⟩
  obtain ⟨c, -, hc⟩ := List.mem_flatMap.mp hmem
  exact newline_not_mem_escapeChar c hc

/-- A text all of whose characters stand for themselves. -/
theorem escapeString_eq {s : String} (h : ∀ c ∈ s.toList, escapeChar c = [c]) :
    escapeString s = s.toList := by
  unfold escapeString
  generalize s.toList = text at h
  induction text with
  | nil => rfl
  | cons c text ih =>
    rw [List.flatMap_cons, h c List.mem_cons_self, ih fun d hd ↦ h d (List.mem_cons_of_mem _ hd)]
    rfl

/-! ### Texts of values -/

theorem mem_intText {i : ℤ} {c : Char} (hc : c ∈ intText i) :
    c = '-' ∨ ∃ d < 16, c = Nat.digitChar d := by
  have hdigit : ∀ n, c ∈ Nat.toDigits 10 n → ∃ d < 16, c = Nat.digitChar d := fun n hn ↦ by
    obtain ⟨d, hd, rfl⟩ := mem_toDigits (by decide) hn
    exact ⟨d, hd.trans (by decide), rfl⟩
  cases i with
  | ofNat n => exact .inr (hdigit n hc)
  | negSucc n =>
    rcases List.mem_cons.mp hc with rfl | hc
    · exact .inl rfl
    · exact .inr (hdigit (n + 1) hc)

theorem intText_plain {i : ℤ} {c : Char} (hc : c ∈ intText i) :
    c ≠ '"' ∧ c ≠ ',' ∧ c ≠ '}' ∧ c ≠ '|' ∧ c ≠ '\n' := by
  rcases mem_intText hc with rfl | ⟨d, hd, rfl⟩
  · decide
  · have hplain := digitChar_plain hd
    exact ⟨hplain.1, hplain.2.2.1, hplain.2.2.2.1, hplain.2.2.2.2.1, hplain.2.2.2.2.2.1⟩

theorem floatText_plain (t : FloatText) {c : Char} (hc : c ∈ t.text.toList) :
    c ≠ '"' ∧ c ≠ '\n' := by
  have hall : "0123456789+-.eNaInfinity".toList.all fun d ↦ d ≠ '"' ∧ d ≠ '\n' := by decide
  exact of_decide_eq_true (List.all_eq_true.mp hall c (t.plain c hc))

mutual

theorem newline_not_mem_jsonText (v : JsonValue) : '\n' ∉ jsonText v := by
  cases v with
  | null => decide
  | bool b => cases b <;> decide
  | int i => exact fun hmem ↦ (intText_plain hmem).2.2.2.2 rfl
  | float t => exact fun hmem ↦ (floatText_plain t hmem).2 rfl
  | str s => exact newline_not_mem_jsonString s
  | array items =>
    unfold jsonText
    rw [List.mem_cons, List.mem_append, not_or, not_or]
    refine ⟨by decide, fun hmem ↦ ?_, by decide⟩
    rcases mem_intercalate hmem with hsep | ⟨piece, hpiece, hin⟩
    · exact absurd hsep (by decide)
    · exact newline_not_mem_itemTexts items piece hpiece hin
  | object fields =>
    unfold jsonText
    rw [List.mem_cons, List.mem_append, not_or, not_or]
    refine ⟨by decide, fun hmem ↦ ?_, by decide⟩
    rcases mem_intercalate hmem with hsep | ⟨piece, hpiece, hin⟩
    · exact absurd hsep (by decide)
    obtain ⟨field, hfield, rfl⟩ := List.mem_map.mp hpiece
    rcases List.mem_append.mp hin with hname | hvalue
    · exact newline_not_mem_jsonString _ hname
    rcases List.mem_cons.mp hvalue with hcolon | hvalue
    · exact absurd hcolon (by decide)
    · exact newline_not_mem_fieldTexts fields field
        ((List.perm_insertionSort _ _).mem_iff.mp hfield) hvalue

theorem newline_not_mem_itemTexts (items : JsonItems) : ∀ text ∈ itemTexts items, '\n' ∉ text := by
  cases items with
  | nil => exact fun text htext ↦ absurd htext List.not_mem_nil
  | cons value rest =>
    intro text htext
    rcases List.mem_cons.mp htext with rfl | htext
    · exact newline_not_mem_jsonText value
    · exact newline_not_mem_itemTexts rest text htext

theorem newline_not_mem_fieldTexts (fields : JsonFields) :
    ∀ field ∈ fieldTexts fields, '\n' ∉ field.2 := by
  cases fields with
  | nil => exact fun field hfield ↦ absurd hfield List.not_mem_nil
  | cons name value rest =>
    intro field hfield
    rcases List.mem_cons.mp hfield with rfl | hfield
    · exact newline_not_mem_jsonText value
    · exact newline_not_mem_fieldTexts rest field hfield

end

/-! ### Names inside values -/

mutual

/-- The names of all objects inside a value. -/
def JsonValue.names : JsonValue → List String
  | .array items => items.names
  | .object fields => fields.names
  | _ => []

def JsonItems.names : JsonItems → List String
  | .nil => []
  | .cons value rest => value.names ++ rest.names

def JsonFields.names : JsonFields → List String
  | .nil => []
  | .cons name value rest => name :: (value.names ++ rest.names)

end

/-- A name in whose text the quoted key does not occur: it is not the key, and does not end in a
quote and the key. -/
def Hidden (key name : String) : Prop := ¬ '"' :: key.toList <:+ '"' :: name.toList

instance (key name : String) : Decidable (Hidden key name) :=
  inferInstanceAs (Decidable (¬ '"' :: key.toList <:+ '"' :: name.toList))

theorem quote_not_mem_unicodeEscape (unit : ℕ) : '"' ∉ unicodeEscape unit := by
  intro hmem
  rcases List.mem_cons.mp hmem with h | hmem
  · exact absurd h (by decide)
  rcases List.mem_cons.mp hmem with h | hmem
  · exact absurd h (by decide)
  obtain ⟨d, hd, heq⟩ := mem_leftpad_toDigits (by decide) hmem
  exact (digitChar_plain hd).1 heq.symm

/-- A quote in the text of a character is that character, and stands at its end. -/
theorem eq_quote_of_escapeChar {c : Char} {text rest : List Char}
    (h : escapeChar c = text ++ '"' :: rest) : c = '"' ∧ rest = [] := by
  have hmem : '"' ∈ escapeChar c := h ▸ List.mem_append_right text List.mem_cons_self
  rcases escapeChar_cases c with
    ⟨hquote, -, -, hc⟩ | ⟨d, -, hd, hc⟩ | ⟨u, hc⟩ | ⟨u, v, hc⟩ <;> rw [hc] at hmem
  · exact absurd (List.mem_singleton.mp hmem).symm hquote
  · rw [hc] at h
    match text, h with
    | [], h => exact absurd (List.cons.inj h).1 (by decide)
    | [_], h =>
      obtain ⟨-, htail⟩ := List.cons.inj h
      obtain ⟨rfl, hrest⟩ := List.cons.inj htail
      exact ⟨hd rfl, hrest.symm⟩
    | _ :: _ :: _, h => simp at h
  · exact absurd hmem (quote_not_mem_unicodeEscape u)
  · rcases List.mem_append.mp hmem with hu | hv
    · exact absurd hu (quote_not_mem_unicodeEscape u)
    · exact absurd hv (quote_not_mem_unicodeEscape v)

/-- A text without backslashes has no escapes. -/
theorem flatMap_escapeChar_eq {text : List Char} (h : '\\' ∉ text.flatMap escapeChar) :
    text.flatMap escapeChar = text := by
  induction text with
  | nil => rfl
  | cons c text ih =>
    rw [List.flatMap_cons, List.mem_append, not_or] at h
    rw [List.flatMap_cons, ih h.2]
    rcases escapeChar_cases c with ⟨-, -, -, hc⟩ | ⟨d, -, -, hc⟩ | ⟨u, hc⟩ | ⟨u, v, hc⟩
    · rw [hc]
      rfl
    · exact absurd (hc ▸ List.mem_cons_self) h.1
    · exact absurd (hc ▸ List.mem_cons_self) h.1
    · exact absurd (hc ▸ List.mem_append_left _ List.mem_cons_self) h.1

theorem eq_of_flatMap_escapeChar_eq {key text : List Char} (hkey : PlainKey key)
    (h : text.flatMap escapeChar = key) : text = key := by
  refine (flatMap_escapeChar_eq fun hmem ↦ ?_).symm.trans h
  exact hkey '\\' (h ▸ hmem) (by decide)

/-- What a text that ends in a quote and a plain key stands for ends so as well. -/
theorem suffix_of_suffix_flatMap {key text : List Char} (hkey : PlainKey key)
    (h : '"' :: key <:+ text.flatMap escapeChar) : '"' :: key <:+ text := by
  induction text with
  | nil => exact absurd (List.suffix_nil.mp h) (List.cons_ne_nil _ _)
  | cons c text ih =>
    obtain ⟨front, hfront⟩ := h
    rw [List.flatMap_cons, List.append_eq_append_iff] at hfront
    rcases hfront with ⟨middle, hc, htail⟩ | ⟨middle, -, htail⟩
    · cases middle with
      | nil => exact (ih ⟨[], htail⟩).trans (List.suffix_cons c text)
      | cons q middle =>
        -- the quote is the end of the first character
        obtain ⟨rfl, hrest⟩ := List.cons.inj htail
        obtain ⟨rfl, rfl⟩ := eq_quote_of_escapeChar hc
        exact eq_of_flatMap_escapeChar_eq hkey hrest.symm ▸ List.suffix_rfl
    · exact (ih ⟨middle, htail.symm⟩).trans (List.suffix_cons c text)

theorem Hidden.escapeString {key name : String} (h : Hidden key name) (hkey : PlainKey key.toList) :
    ¬ '"' :: key.toList <:+ '"' :: escapeString name := by
  intro hsuffix
  refine h ?_
  rcases List.suffix_cons_iff.mp hsuffix with heq | htail
  · have hname := eq_of_flatMap_escapeChar_eq hkey (List.cons.inj heq).2.symm
    exact hname ▸ List.suffix_rfl
  · exact (suffix_of_suffix_flatMap hkey htail).trans (List.suffix_cons _ _)

/-! ### Texts that a search passes over -/

theorem jsonString_entry (name : String) (text : List Char) :
    jsonString name ++ ':' :: text = entryText (escapeString name, text) := by
  unfold jsonString entryText
  rw [keyNeedle_append, List.cons_append, List.append_assoc]
  rfl

section Pass

variable {key : String}

mutual

/-- Assumes: no name inside the value shows the key. -/
theorem passedOver_jsonText (hkey : PlainKey key.toList) (v : JsonValue)
    (h : ∀ name ∈ v.names, Hidden key name) : PassedOver key.toList (jsonText v) := by
  cases v with
  | null => exact passedOver_bare (by decide)
  | bool b => exact passedOver_bare (by cases b <;> decide)
  | int i => exact passedOver_bare fun hmem ↦ (intText_plain hmem).1 rfl
  | float t => exact passedOver_bare fun hmem ↦ (floatText_plain t hmem).1 rfl
  | str s => exact passedOver_quoted (escaped_escapeString s) hkey
  | array items =>
    unfold jsonText
    exact passedOver_bracketed (by decide) (by decide) (passedOver_itemTexts hkey items h)
  | object fields =>
    unfold jsonText
    refine passedOver_bracketed (by decide) (by decide) fun text htext ↦ ?_
    obtain ⟨field, hfield, rfl⟩ := List.mem_map.mp htext
    exact passedOver_fieldTexts hkey fields h field
      ((List.perm_insertionSort _ _).mem_iff.mp hfield)

theorem passedOver_itemTexts (hkey : PlainKey key.toList) (items : JsonItems)
    (h : ∀ name ∈ items.names, Hidden key name) :
    ∀ text ∈ itemTexts items, PassedOver key.toList text := by
  cases items with
  | nil => exact fun text htext ↦ absurd htext List.not_mem_nil
  | cons value rest =>
    intro text htext
    rcases List.mem_cons.mp htext with rfl | htext
    · exact passedOver_jsonText hkey value fun name hname ↦ h name (List.mem_append_left _ hname)
    · exact passedOver_itemTexts hkey rest
        (fun name hname ↦ h name (List.mem_append_right _ hname)) text htext

theorem passedOver_fieldTexts (hkey : PlainKey key.toList) (fields : JsonFields)
    (h : ∀ name ∈ fields.names, Hidden key name) :
    ∀ field ∈ fieldTexts fields,
      PassedOver key.toList (jsonString field.1 ++ ':' :: field.2) := by
  cases fields with
  | nil => exact fun field hfield ↦ absurd hfield List.not_mem_nil
  | cons name value rest =>
    intro field hfield
    rcases List.mem_cons.mp hfield with rfl | hfield
    · rw [jsonString_entry]
      refine passedOver_entry (escaped_escapeString name) hkey
        ((h name List.mem_cons_self).escapeString hkey) (passedOver_jsonText hkey value ?_)
      exact fun other hother ↦
        h other (List.mem_cons_of_mem _ (List.mem_append_left _ hother))
    · refine passedOver_fieldTexts hkey rest ?_ field hfield
      exact fun other hother ↦
        h other (List.mem_cons_of_mem _ (List.mem_append_right _ hother))

end

end Pass

/-! ### Cutting out a value -/

/-- What is cut out for a value. -/
def plainText : JsonValue → List Char
  | .str s => (escapeString s).takeWhile (· ≠ '"')
  | v => (jsonText v).takeWhile fun c ↦ c ≠ ',' ∧ c ≠ '}'

theorem takeWhile_append_stop {p : Char → Bool} {sep : Char} (hsep : p sep = false)
    (text rest : List Char) : (text ++ sep :: rest).takeWhile p = text.takeWhile p := by
  induction text with
  | nil => rw [List.nil_append, List.takeWhile_cons_of_neg (by simp [hsep]), List.takeWhile_nil]
  | cons c text ih =>
    rw [List.cons_append, List.takeWhile_cons, List.takeWhile_cons, ih]

section Cut

open TraceJsonUtil

variable {text rest : List Char} {sep : Char}

theorem cutValue_unquoted (hopen : text.head? ≠ some '"') (hsep : sep = ',' ∨ sep = '}') :
    cutValue (text ++ sep :: rest) = text.takeWhile fun c ↦ c ≠ ',' ∧ c ≠ '}' := by
  have hquote : ∀ tail, text ++ sep :: rest ≠ '"' :: tail := by
    intro tail heq
    cases text with
    | nil =>
      have hfirst : sep = '"' := (List.cons.inj heq).1
      rcases hsep with rfl | rfl <;> exact absurd hfirst (by decide)
    | cons c text => exact hopen (congrArg some (List.cons.inj heq).1)
  have hne : text ++ sep :: rest ≠ [] := List.append_ne_nil_of_right_ne_nil _ (List.cons_ne_nil _ _)
  rw [cutValue.eq_3 _ hne hquote, takeWhile_append_stop]
  rcases hsep with rfl | rfl <;> rfl

theorem cutValue_quoted :
    cutValue ('"' :: (text ++ '"' :: rest)) = text.takeWhile (· ≠ '"') := by
  have hmem : '"' ∈ text ++ '"' :: rest := List.mem_append_right _ List.mem_cons_self
  rw [cutValue.eq_2, if_pos hmem, takeWhile_append_stop (by decide)]

/-- In front of a comma or a brace the text of a value is cut out as its plain text. -/
theorem cutValue_jsonText (v : JsonValue) (hsep : sep = ',' ∨ sep = '}') :
    cutValue (jsonText v ++ sep :: rest) = plainText v := by
  cases v with
  | null => exact cutValue_unquoted (by decide) hsep
  | bool b => exact cutValue_unquoted (by cases b <;> decide) hsep
  | int i =>
    exact cutValue_unquoted (fun h ↦ (intText_plain (List.mem_of_mem_head? h)).1 rfl) hsep
  | float t =>
    exact cutValue_unquoted (fun h ↦ (floatText_plain t (List.mem_of_mem_head? h)).1 rfl) hsep
  | str s =>
    unfold jsonText jsonString
    rw [List.cons_append, List.append_assoc]
    exact cutValue_quoted
  | array items =>
    unfold plainText jsonText
    exact cutValue_unquoted (by simp) hsep
  | object fields =>
    unfold plainText jsonText
    exact cutValue_unquoted (by simp) hsep

theorem plainText_int (i : ℤ) : plainText (.int i) = intText i := by
  show (intText i).takeWhile _ = intText i
  refine List.takeWhile_eq_self_iff.mpr fun c hc ↦ decide_eq_true ?_
  exact ⟨(intText_plain hc).2.1, (intText_plain hc).2.2.1⟩

end Cut

/-! ### Dictionaries -/

/-- Keys that are written as they are, each of them once. -/
structure WellKeyed (o : JsonObject) : Prop where
  nodup : (o.map Prod.fst).Nodup
  plain : ∀ k ∈ o.map Prod.fst, PlainKey k.toList ∧ escapeString k = k.toList

theorem wellKeyed_of_keys {o : JsonObject} (keys : List String) (hkeys : o.map Prod.fst = keys)
    (hnodup : keys.Nodup) (hplain : ∀ k ∈ keys, PlainKey k.toList ∧ escapeString k = k.toList) :
    WellKeyed o :=
  ⟨hkeys ▸ hnodup, hkeys ▸ hplain⟩

theorem toJson_wellKeyed (record : NormRecord) : WellKeyed record.toJson := by
  cases record with
  | metadataStart m =>
    exact wellKeyed_of_keys
      ["event", "phase", "trace_schema_version", "source", "program", "scope", "entry_pc",
        "tohost_addr", "cycle_base", "input_records", "unavailable_fields_are_null"]
      rfl (by decide +kernel) (by decide +kernel)
  | commit c =>
    exact wellKeyed_of_keys
      ["event", "trace_schema_version", "source", "program", "commit_index", "cycle",
        "normalized_cycle", "slot", "pc", "instruction", "mnemonic", "rd_valid", "rd", "rd_value",
        "exception", "exception_cause", "branch_mispredict", "arch_valid", "trace_sequence_id"]
      rfl (by decide +kernel) (by decide +kernel)
  | branch b =>
    exact wellKeyed_of_keys
      ["event", "trace_schema_version", "source", "program", "branch_index", "cycle",
        "normalized_cycle", "slot", "pc", "instruction", "mnemonic", "taken",
        "branch_mispredict", "target", "trace_sequence_id"]
      rfl (by decide +kernel) (by decide +kernel)
  | boundary b =>
    exact wellKeyed_of_keys
      ["event", "trace_schema_version", "source", "program", "cycle", "normalized_cycle", "pc",
        "instruction", "mnemonic", "reason", "trace_sequence_id"]
      rfl (by decide +kernel) (by decide +kernel)
  | metadataEnd m =>
    exact wellKeyed_of_keys
      ["event", "phase", "trace_schema_version", "source", "program", "scope",
        "prefix_commit_records", "branch_records", "unsupported_boundary_pc",
        "unsupported_boundary_instruction", "stop_reason"]
      rfl (by decide +kernel) (by decide +kernel)

section Dumps

variable {o : JsonObject}

/-- The items in the order of their keys. -/
def sortedItems (o : JsonObject) : JsonObject := o.insertionSort fun a b ↦ a.1 ≤ b.1

theorem sortedItems_perm (o : JsonObject) : (sortedItems o).Perm o := List.perm_insertionSort _ o

theorem fieldTexts_toFields (o : JsonObject) :
    fieldTexts o.toFields = o.map fun item ↦ (item.1, jsonText item.2) := by
  induction o with
  | nil => rfl
  | cons item o ih => exact congrArg _ ih

/-- Assumes: no key occurs twice. In front of an item stand those with smaller keys. -/
theorem lt_of_sortedItems (h : (o.map Prod.fst).Nodup) {front back : JsonObject}
    {entry : String × JsonValue} (hsorted : sortedItems o = front ++ entry :: back)
    {item : String × JsonValue} (hitem : item ∈ front) : item ∈ o ∧ item.1 < entry.1 := by
  have hnames : (sortedItems o).map Prod.fst = (o.map Prod.fst).insertionSort (· ≤ ·) :=
    List.map_insertionSort (fun a b : String × JsonValue ↦ a.1 ≤ b.1) (· ≤ ·) _ _
      fun _ _ _ _ ↦ Iff.rfl
  have hle : ((sortedItems o).map Prod.fst).Pairwise (· ≤ ·) :=
    hnames ▸ List.pairwise_insertionSort _ _
  have hnodup : ((sortedItems o).map Prod.fst).Nodup :=
    ((sortedItems_perm o).map Prod.fst).nodup_iff.mpr h
  have hfront : item.1 ∈ front.map Prod.fst := List.mem_map_of_mem hitem
  rw [hsorted, List.map_append, List.map_cons] at hle hnodup
  refine ⟨(sortedItems_perm o).mem_iff.mp (hsorted ▸ List.mem_append_left _ hitem), ?_⟩
  have hbefore : item.1 ≤ entry.1 :=
    (List.pairwise_append.mp hle).2.2 _ hfront _ List.mem_cons_self
  by_contra hlt
  have heq : item.1 = entry.1 := String.le_antisymm hbefore (String.not_lt.mp hlt)
  exact List.disjoint_of_nodup_append hnodup hfront (heq ▸ List.mem_cons_self)

/-- The text of an item in the text of a dictionary. -/
def itemEntry (item : String × JsonValue) : List Char × List Char :=
  (item.1.toList, jsonText item.2)

theorem dumps_eq (h : WellKeyed o) : dumps o = objectText ((sortedItems o).map itemEntry) := by
  have hsort : (fieldTexts o.toFields).insertionSort (fun a b ↦ a.1 ≤ b.1) =
      (sortedItems o).map fun item ↦ (item.1, jsonText item.2) := by
    rw [fieldTexts_toFields]
    exact (List.map_insertionSort (fun a b : String × JsonValue ↦ a.1 ≤ b.1)
      (fun a b : String × List Char ↦ a.1 ≤ b.1) _ _ fun _ _ _ _ ↦ Iff.rfl).symm
  have hentry : ∀ item ∈ sortedItems o, jsonString item.1 ++ ':' :: jsonText item.2 =
      entryText (itemEntry item) := by
    intro item hitem
    have hkey := h.plain item.1 (List.mem_map_of_mem ((sortedItems_perm o).mem_iff.mp hitem))
    rw [jsonString_entry, hkey.2]
    rfl
  unfold dumps jsonText objectText bracketed
  rw [hsort, List.map_map, List.map_map]
  exact congrArg (fun texts ↦ '{' :: ([','].intercalate texts ++ ['}']))
    (List.map_congr_left hentry)

theorem value_eq (line : List Char) (key : String) :
    TraceJsonUtil.value line key =
      (afterFirst (keyNeedle key.toList) line).elim [] TraceJsonUtil.cutValue := by
  unfold TraceJsonUtil.value keyNeedle
  cases afterFirst ('"' :: (key.toList ++ ['"', ':'])) line <;> rfl

/-- Assumes: no name inside the values of smaller keys shows the key. The lookup of a key in the
line of a dictionary. -/
theorem value_dumps (h : WellKeyed o) {key : String} {v : JsonValue} (hmem : (key, v) ∈ o)
    (hfront : ∀ item ∈ o, item.1 < key → ∀ name ∈ item.2.names, Hidden key name) :
    TraceJsonUtil.value (dumps o) key = plainText v := by
  have hplain := (h.plain key (List.mem_map_of_mem hmem)).1
  obtain ⟨front, back, hsorted⟩ :=
    List.append_of_mem ((sortedItems_perm o).mem_iff.mpr hmem)
  have hpass : ∀ e ∈ front.map itemEntry, PassedOver key.toList (entryText e) := by
    intro e he
    obtain ⟨item, hitem, rfl⟩ := List.mem_map.mp he
    obtain ⟨hin, hlt⟩ := lt_of_sortedItems h.nodup hsorted hitem
    obtain ⟨hplainItem, hescape⟩ := h.plain item.1 (List.mem_map_of_mem hin)
    -- both names are plain, so neither shows the other
    have hother : ¬ '"' :: key.toList <:+ '"' :: item.1.toList := by
      intro hsuffix
      rcases List.suffix_cons_iff.mp hsuffix with heq | htail
      · have hname : key = item.1 := String.toList_inj.mp (List.cons.inj heq).2
        exact String.lt_irrefl _ (hname ▸ hlt)
      · exact hplainItem.quote_not_mem (htail.subset List.mem_cons_self)
    exact passedOver_entry (hescape ▸ escaped_escapeString item.1) hplain hother
      (passedOver_jsonText hplain item.2 (hfront item hin hlt))
  obtain ⟨sep, rest, hsep, hfound⟩ :=
    @afterFirst_objectText key.toList _ (back.map itemEntry) (jsonText v) hpass
  rw [value_eq, dumps_eq h, hsorted, List.map_append, List.map_cons]
  show (afterFirst _
    (objectText (front.map itemEntry ++ (key.toList, jsonText v) :: _))).elim _ _ = _
  rw [hfound]
  exact cutValue_jsonText v hsep

end Dumps

/-! ### Plain texts of signature values -/

/-- Reads a plain text as a scalar. -/
def readInt : List Char → Option ℤ
  | '-' :: rest => (readDigits 10 0 rest).map fun n : ℕ ↦ -(n : ℤ)
  | text => (readDigits 10 0 text).map fun n : ℕ ↦ (n : ℤ)

def readPlain (text : List Char) : JsonValue :=
  match readInt text with
  | some i => .int i
  | none =>
    if text = "null".toList then .null
    else if text = "true".toList then .bool true
    else if text = "false".toList then .bool false
    else .str (String.ofList text)

/-- A value whose plain text is one piece of a signature and tells the value. -/
structure Legible (v : JsonValue) : Prop where
  noBar : '|' ∉ plainText v
  read : readPlain (plainText v) = v

theorem readInt_intText (i : ℤ) : readInt (intText i) = some i := by
  have hread : ∀ n, readDigits 10 0 (Nat.toDigits 10 n) = some n := fun n ↦ by
    rw [readDigits_toDigits (by decide) (by decide), Nat.zero_mul, Nat.zero_add]
  cases i with
  | ofNat n =>
    have hsign : ∀ rest, Nat.toDigits 10 n ≠ '-' :: rest := by
      intro rest heq
      obtain ⟨d, hd, hc⟩ := mem_toDigits (n := n) (by decide) (heq ▸ List.mem_cons_self)
      exact (digitChar_plain (hd.trans (by decide))).2.2.2.2.2.2.1 hc.symm
    unfold intText
    rw [readInt.eq_2 _ hsign, hread]
    rfl
  | negSucc n =>
    show (readDigits 10 0 (Nat.toDigits 10 (n + 1))).map (fun n : ℕ ↦ -(n : ℤ)) = _
    rw [hread]
    rfl

theorem legible_null : Legible .null := ⟨by decide, by decide⟩

theorem legible_bool (b : Bool) : Legible (.bool b) := by
  cases b <;> exact ⟨by decide, by decide⟩

theorem legible_int (i : ℤ) : Legible (.int i) := by
  refine ⟨fun hmem ↦ ?_, ?_⟩
  · exact (intText_plain (plainText_int i ▸ hmem)).2.2.2.1 rfl
  · unfold readPlain
    rw [plainText_int, readInt_intText]

theorem legible_ofBool (b : Option Bool) : Legible (.ofBool b) := by
  cases b with
  | none => exact legible_null
  | some b => exact legible_bool b

theorem legible_ofInt (i : Option ℤ) : Legible (.ofInt i) := by
  cases i with
  | none => exact legible_null
  | some i => exact legible_int i

/-- A string whose characters stand for themselves. -/
theorem plainText_str {s : String} (h : ∀ c ∈ s.toList, escapeChar c = [c]) :
    plainText (.str s) = s.toList := by
  show (escapeString s).takeWhile (· ≠ '"') = s.toList
  rw [escapeString_eq h]
  refine List.takeWhile_eq_self_iff.mpr fun c hc ↦ decide_eq_true fun heq ↦ ?_
  have hescape := h c hc
  rw [heq] at hescape
  exact absurd hescape (by decide)

theorem hexChars_plain {value width : ℕ} {c : Char} (hc : c ∈ hexChars value width) :
    escapeChar c = [c] ∧ c ≠ '|' := by
  rcases List.mem_cons.mp hc with rfl | hc
  · decide
  rcases List.mem_cons.mp hc with rfl | hc
  · decide
  obtain ⟨d, hd, rfl⟩ := mem_leftpad_toDigits (by decide) hc
  have h := digitChar_plain hd
  exact ⟨h.2.2.2.2.2.2.2, h.2.2.2.2.1⟩

theorem legible_ofHex (t : Option HexText) : Legible (.ofHex t) := by
  cases t with
  | none => exact legible_null
  | some t =>
    obtain ⟨text, value, width, rfl⟩ := t
    have hchars : (fmtHex value width).toList = hexChars value width := String.toList_ofList
    have hplain : plainText (.str (fmtHex value width)) = hexChars value width := by
      rw [plainText_str, hchars]
      exact fun c hc ↦ (hexChars_plain (hchars ▸ hc)).1
    refine ⟨fun hmem ↦ ?_, ?_⟩
    · exact (hexChars_plain (hplain ▸ hmem)).2 rfl
    · -- a hexadecimal text is no decimal numeral, since it has an `x`
      have hint : readInt (hexChars value width) = none := by
        show (readDigits 10 0 (hexChars value width)).map (fun n : ℕ ↦ (n : ℤ)) = none
        unfold hexChars
        rw [readDigits_cons, show digitIn 10 '0' = some 0 from rfl, Option.bind_some,
          readDigits_cons, show digitIn 10 'x' = none from rfl]
        rfl
      have hword : ∀ word : String, word.toList.head? ≠ some '0' →
          hexChars value width ≠ word.toList := fun word hword heq ↦ hword (heq ▸ rfl)
      show readPlain (plainText (.str (fmtHex value width))) = .str (fmtHex value width)
      unfold readPlain
      rw [hplain, hint]
      simp only
      rw [if_neg (hword _ (by decide)), if_neg (hword _ (by decide)), if_neg (hword _ (by decide))]
      rfl

end BoomCore.Trace

import BoomCore.Library.LittleEndian
import BoomCore.Model.Loadmem

/-!
# What the loaders make of a file

For a file that `SimpleMemory` accepts, every loader is a function of the bytes of its data lines:
`ImageLines` relates a text to these bytes, and each loader gets one lemma that says what it builds
from them.
-/

set_option autoImplicit false
set_option relaxedAutoImplicit false

namespace BoomCore.Loadmem

open Trace

/-! ### Digits -/

theorem digitIn_range {base : ℕ} {c : Char} (h : (digitIn base c).isSome = true) :
    48 ≤ c.toNat ∧ c.toNat ≤ 122 := by
  have hrange : ∀ a b : Char, a ≤ b ↔ a.toNat ≤ b.toNat := fun a b ↦ Iff.rfl
  unfold digitIn digitValue at h
  simp only [hrange] at h
  split_ifs at h with h0 h1 h2
  · exact ⟨h0.1, h0.2.trans (by decide)⟩
  · exact ⟨le_trans (by decide) h1.1, h1.2⟩
  · exact ⟨le_trans (by decide) h2.1, h2.2.trans (by decide)⟩
  · simp at h

/-- A digit is no blank, no comment sign and no sign of a number. -/
theorem digit_plain {base : ℕ} {c : Char} (h : (digitIn base c).isSome = true) :
    isSpaceC c = false ∧ isSpace c = false ∧ c ≠ '#' ∧ c ≠ '-' ∧ c ≠ '+' := by
  obtain ⟨hlo, hhi⟩ := digitIn_range h
  have hne : ∀ d : Char, ¬ (48 ≤ d.toNat ∧ d.toNat ≤ 122) → c ≠ d := fun d hd heq ↦
    hd (heq ▸ ⟨hlo, hhi⟩)
  refine ⟨?_, ?_, hne _ (by decide), hne _ (by decide), hne _ (by decide)⟩
  · have hspace : c ≠ ' ' := hne _ (by decide)
    unfold isSpaceC
    rw [beq_eq_false_iff_ne.mpr hspace, Bool.false_or, Bool.and_eq_false_iff,
      decide_eq_false_iff_not, decide_eq_false_iff_not]
    omega
  · unfold isSpace
    simp only [Bool.or_eq_false_iff, beq_eq_false_iff_ne, Bool.and_eq_false_iff,
      decide_eq_false_iff_not]
    omega

theorem digit_of_nibble {c : Char} {d : ℕ} (h : hexNibble c = some d) :
    (digitIn 16 c).isSome = true := Option.isSome_iff_exists.mpr ⟨d, h⟩

theorem isSpace_of_isSpaceC {c : Char} (h : isSpaceC c = true) : isSpace c = true := by
  unfold isSpaceC at h
  unfold isSpace
  simp only [Bool.or_eq_true, beq_iff_eq, Bool.and_eq_true, decide_eq_true_eq] at h ⊢
  rcases h with rfl | h
  · decide
  · omega

/-! ### The bytes of a line -/

section Line

variable {t : List Char} {bytes : List ℕ}

/-- Assumes: the line has these bytes. -/
theorem lineBytes_digits (h : lineBytes t = some bytes) :
    ∀ c ∈ t, (digitIn 16 c).isSome = true := by
  fun_induction lineBytes t generalizing bytes with
  | case1 => simp
  | case2 => simp at h
  | case3 hi lo rest hv lv bs hrest hlo hhi ih =>
    intro c hc
    rcases List.mem_cons.mp hc with rfl | hc
    · exact digit_of_nibble hhi
    · rcases List.mem_cons.mp hc with rfl | hc
      · exact digit_of_nibble hlo
      · exact ih hrest c hc
  | case4 => simp at h

theorem lineBytes_length (h : lineBytes t = some bytes) : t.length = 2 * bytes.length := by
  fun_induction lineBytes t generalizing bytes with
  | case1 => rw [← Option.some.inj h]; rfl
  | case2 => simp at h
  | case3 hi lo rest hv lv bs hrest hlo hhi ih =>
    rw [← Option.some.inj h, List.length_cons, List.length_cons, ih hrest, List.length_append]
    rfl
  | case4 => simp at h

theorem utf8Size_of_digit {c : Char} (h : (digitIn 16 c).isSome = true) : c.utf8Size = 1 := by
  rw [Char.utf8Size_eq_one_iff, UInt32.le_iff_toNat_le]
  unfold digitIn digitValue at h
  split_ifs at h with hdecimal hlower hupper
  · exact Nat.le_trans (show c.toNat ≤ '9'.toNat from hdecimal.2) (by decide)
  · exact Nat.le_trans (show c.toNat ≤ 'z'.toNat from hlower.2) (by decide)
  · exact Nat.le_trans (show c.toNat ≤ 'Z'.toNat from hupper.2) (by decide)
  · exact absurd h Bool.false_ne_true

theorem byteSize_line (h : lineBytes t = some bytes) : byteSize t = 2 * bytes.length := by
  have hones : t.map Char.utf8Size = t.map fun _ ↦ 1 :=
    List.map_congr_left fun c hc ↦ utf8Size_of_digit (lineBytes_digits h c hc)
  unfold byteSize
  rw [hones, ← lineBytes_length h]
  simp

theorem digitIn_lt {base : ℕ} {c : Char} {d : ℕ} (h : digitIn base c = some d) : d < base := by
  unfold digitIn at h
  simpa using (Option.filter_eq_some_iff.mp h).2

theorem lineBytes_lt (h : lineBytes t = some bytes) : ∀ b ∈ bytes, b < 256 := by
  fun_induction lineBytes t generalizing bytes with
  | case1 => rw [← Option.some.inj h]; simp
  | case2 => simp at h
  | case3 hi lo rest hv lv bs hrest hlo hhi ih =>
    have hh := digitIn_lt hhi
    have hl := digitIn_lt hlo
    intro b hb
    rw [← Option.some.inj h, List.mem_append, List.mem_singleton] at hb
    rcases hb with hb | rfl
    · exact ih hrest b hb
    · omega
  | case4 => simp at h

/-- Read as a number, the line is its bytes with the last pair of digits lowest. -/
theorem readDigits_line (h : lineBytes t = some bytes) (acc : ℕ) :
    readDigits 16 acc t = some (acc * 256 ^ bytes.length + Nat.ofDigits 256 bytes) := by
  fun_induction lineBytes t generalizing bytes acc with
  | case1 => rw [← Option.some.inj h]; simp
  | case2 => simp at h
  | case3 hi lo rest hv lv bs hrest hlo hhi ih =>
    rw [← Option.some.inj h, readDigits_cons, show digitIn 16 hi = some hv from hhi,
      Option.bind_some, readDigits_cons, show digitIn 16 lo = some lv from hlo, Option.bind_some,
      ih hrest, List.length_append, List.length_singleton, Nat.ofDigits_append,
      Nat.ofDigits_singleton, pow_succ]
    congr 1
    ring
  | case4 => simp at h

/-- `bytes.fromhex` has the same bytes in the other order. -/
theorem fromHex_line (h : lineBytes t = some bytes) : fromHex t = some bytes.reverse := by
  fun_induction lineBytes t generalizing bytes with
  | case1 => rw [← Option.some.inj h]; rfl
  | case2 => simp at h
  | case3 hi lo rest hv lv bs hrest hlo hhi ih =>
    have hplain : isSpaceC hi = false := (digit_plain (digit_of_nibble hhi)).1
    unfold fromHex
    rw [if_neg (by simp [hplain]), hhi, hlo, ih hrest, ← Option.some.inj h]
    simp
  | case4 => simp at h

/-- `strtoull` reads the whole line, and no more than 64 bits of it. -/
theorem strtoull_line (h : lineBytes t = some bytes) :
    strtoull t = min (Nat.ofDigits 256 bytes) (2 ^ 64 - 1) := by
  have hdigits := lineBytes_digits h
  have hall : strtoullDigits t = t := by
    have htake : t.takeWhile (fun c ↦ (digitIn 16 c).isSome) = t :=
      List.takeWhile_eq_self_iff.mpr hdigits
    unfold strtoullDigits
    split
    · exact absurd (hdigits 'x' (by simp)) (by decide)
    · exact absurd (hdigits 'X' (by simp)) (by decide)
    · exact htake
  have hmagnitude : strtoullMagnitude t = Nat.ofDigits 256 bytes := by
    unfold strtoullMagnitude
    rw [hall, readDigits_line h, Nat.zero_mul, Nat.zero_add]
    rfl
  unfold strtoull
  split
  · exact absurd rfl (digit_plain (hdigits '-' List.mem_cons_self)).2.2.2.1
  · exact absurd rfl (digit_plain (hdigits '+' List.mem_cons_self)).2.2.2.2
  · rw [hmagnitude]

end Line

/-! ### What the loaders take from a line -/

theorem beforeComment_append_of_mem {t : List Char} (h : '#' ∈ t) (rest : List Char) :
    beforeComment (t ++ rest) = beforeComment t := by
  unfold beforeComment
  rw [List.takeWhile_append]
  split_ifs with hlength
  · have hall : t.takeWhile (· ≠ '#') = t :=
      (List.takeWhile_prefix _).eq_of_length hlength
    have hne := List.takeWhile_eq_self_iff.mp hall '#' h
    simp at hne
  · rfl

theorem beforeComment_append_of_not_mem {t : List Char} (h : '#' ∉ t) (rest : List Char) :
    beforeComment (t ++ rest) = t ++ beforeComment rest := by
  unfold beforeComment
  rw [List.takeWhile_append_of_pos]
  intro c hc
  simpa using fun heq : c = '#' ↦ h (heq ▸ hc)

/-- `SimpleMemory` takes the text before the comment, trimmed. -/
theorem lineData_eq (line : List Char) :
    SimpleMemory.lineData line = trim (beforeComment line) := by
  obtain ⟨a, b, ha, hb, hline⟩ := exists_trimBy (p := isSpaceC) line
  have hblank : ∀ x : List Char, (∀ c ∈ x, isSpaceC c = true) → '#' ∉ x := fun x hx hmem ↦
    absurd (hx '#' hmem) (by decide)
  have hcut : beforeComment line = a ++ beforeComment (trim line ++ b) := by
    conv_lhs => rw [hline]
    rw [List.append_assoc, beforeComment_append_of_not_mem (hblank a ha)]
    rfl
  unfold SimpleMemory.lineData
  split_ifs with hmem
  · rw [hcut, beforeComment_append_of_mem hmem]
    exact (trimBy_append ha (b := []) (by simp)).symm.trans (by rw [List.append_nil]; rfl)
  · have hb' : beforeComment b = b := by
      have hself := beforeComment_append_of_not_mem (hblank b hb) []
      rwa [List.append_nil, show beforeComment [] = [] from rfl, List.append_nil] at hself
    rw [hcut, beforeComment_append_of_not_mem hmem, hb', ← List.append_assoc]
    have hline' : a ++ trim line ++ b = line := hline.symm
    rw [hline']

/-- `IdealMem` takes the same digits. -/
theorem token_eq {line : List Char} {bytes : List ℕ}
    (h : lineBytes (SimpleMemory.lineData line) = some bytes) :
    IdealMem.token line = SimpleMemory.lineData line := by
  have hdigits := lineBytes_digits h
  rw [lineData_eq] at hdigits ⊢
  exact filter_eq_trimBy fun c hc ↦ (digit_plain (hdigits c hc)).1

/-- `parse_loadmem` takes the same digits. -/
theorem strip_beforeComment_eq {line : List Char} {bytes : List ℕ}
    (h : lineBytes (SimpleMemory.lineData line) = some bytes) :
    strip (beforeComment line) = SimpleMemory.lineData line := by
  have hdigits := lineBytes_digits h
  rw [lineData_eq] at hdigits ⊢
  obtain ⟨a, b, ha, hb, hline⟩ := exists_trimBy (p := isSpaceC) (beforeComment line)
  have hplain : ∀ c ∈ trimBy isSpaceC (beforeComment line), isSpace c = false := fun c hc ↦
    (digit_plain (hdigits c hc)).2.1
  calc strip (beforeComment line)
      = trimBy isSpace (a ++ trimBy isSpaceC (beforeComment line) ++ b) :=
        congrArg (trimBy isSpace) hline
    _ = trimBy isSpace (trimBy isSpaceC (beforeComment line)) :=
        trimBy_append (fun c hc ↦ isSpace_of_isSpaceC (ha c hc))
          fun c hc ↦ isSpace_of_isSpaceC (hb c hc)
    _ = trim (beforeComment line) := trimBy_eq_self hplain

/-! ### The image of a file -/

/-- The lines that are not blank or all comment, without comments and blanks. -/
def linesData (lines : List (List Char)) : List (List Char) :=
  (lines.map SimpleMemory.lineData).filter (· ≠ [])

/-- The bytes of the data lines, each from the lowest address on. -/
def HasBytes (lines : List (List Char)) (image : List (List ℕ)) : Prop :=
  (linesData lines).map lineBytes = image.map some

section HasBytes

variable {line : List Char} {lines : List (List Char)} {image : List (List ℕ)}

/-- The first line is blank, or it has the first bytes. -/
theorem HasBytes.cases (h : HasBytes (line :: lines) image) :
    (SimpleMemory.lineData line = [] ∧ HasBytes lines image) ∨
      ∃ bytes rest, SimpleMemory.lineData line ≠ [] ∧
        lineBytes (SimpleMemory.lineData line) = some bytes ∧ image = bytes :: rest ∧
        HasBytes lines rest := by
  unfold HasBytes linesData at h
  rw [List.map_cons] at h
  by_cases hblank : SimpleMemory.lineData line = []
  · rw [List.filter_cons_of_neg (by simp [hblank])] at h
    exact .inl ⟨hblank, h⟩
  · rw [List.filter_cons_of_pos (by simp [hblank]), List.map_cons] at h
    obtain ⟨bytes, rest, heq, hbytes, hrest⟩ := List.map_eq_cons_iff.mp h.symm
    exact .inr ⟨bytes, rest, hblank, hbytes.symm, heq, hrest.symm⟩

theorem HasBytes.lt (h : HasBytes lines image) : ∀ bytes ∈ image, ∀ b ∈ bytes, b < 256 := by
  induction lines generalizing image with
  | nil =>
    unfold HasBytes linesData at h
    rw [List.map_eq_nil_iff.mp h.symm]
    simp
  | cons line lines ih =>
    rcases h.cases with ⟨-, hrest⟩ | ⟨bytes, rest, -, hbytes, rfl, hrest⟩
    · exact ih hrest
    · exact List.forall_mem_cons.mpr ⟨lineBytes_lt hbytes, ih hrest⟩

theorem store_append (m : SimpleMemory) (addr : ℕ) (a b : List ℕ) :
    m.store addr (a ++ b) = (m.store addr a).store (addr + a.length) b := by
  induction a generalizing m addr with
  | nil => rfl
  | cons byte a ih =>
    show SimpleMemory.store _ (addr + 1) (a ++ b) = _
    rw [ih, List.length_cons, Nat.add_assoc, Nat.add_comm 1]
    rfl

/-- `SimpleMemory` stores the bytes one after the other. -/
theorem foldlM_loadLine (h : HasBytes lines image) (m : SimpleMemory) (addr : ℕ) :
    lines.foldlM SimpleMemory.loadLine (m, addr) =
      .ok (m.store addr image.flatten, addr + image.flatten.length) := by
  induction lines generalizing image m addr with
  | nil =>
    unfold HasBytes linesData at h
    rw [List.map_eq_nil_iff.mp h.symm]
    rfl
  | cons line lines ih =>
    rw [List.foldlM_cons]
    rcases h.cases with ⟨hblank, hrest⟩ | ⟨bytes, rest, hdata, hbytes, rfl, hrest⟩
    · have hstep : SimpleMemory.loadLine (m, addr) line = .ok (m, addr) := if_pos hblank
      rw [hstep]
      exact ih hrest m addr
    · have hlength := byteSize_line hbytes
      have hstep : SimpleMemory.loadLine (m, addr) line =
          .ok (m.store addr bytes, addr + bytes.length) := by
        unfold SimpleMemory.loadLine
        rw [if_neg hdata, if_neg (by omega), hbytes, hlength]
        simp
      rw [hstep, List.flatten_cons, store_append, List.length_append, ← Nat.add_assoc]
      exact ih hrest _ _

/-- Assumes: `SimpleMemory` accepts the lines. -/
theorem hasBytes_of_accepted {state state' : SimpleMemory × ℕ}
    (h : lines.foldlM SimpleMemory.loadLine state = .ok state') :
    ∃ image, HasBytes lines image := by
  induction lines generalizing state with
  | nil => exact ⟨[], rfl⟩
  | cons line lines ih =>
    rw [List.foldlM_cons] at h
    cases hstep : SimpleMemory.loadLine state line with
    | error e =>
      rw [hstep] at h
      cases h
    | ok next =>
      rw [hstep] at h
      obtain ⟨image, himage⟩ := ih h
      unfold SimpleMemory.loadLine at hstep
      split_ifs at hstep with hblank hodd
      · refine ⟨image, ?_⟩
        unfold HasBytes linesData
        rw [List.map_cons, List.filter_cons_of_neg (by simp [hblank])]
        exact himage
      · cases hbytes : lineBytes (SimpleMemory.lineData line) with
        | none =>
          rw [hbytes] at hstep
          cases hstep
        | some bytes =>
          refine ⟨bytes :: image, ?_⟩
          unfold HasBytes linesData
          rw [List.map_cons, List.filter_cons_of_pos (by simp [hblank]), List.map_cons, hbytes,
            List.map_cons]
          exact congrArg _ himage

theorem bytes_of_blank (h : SimpleMemory.lineData line = []) :
    lineBytes (SimpleMemory.lineData line) = some [] := by
  rw [h]
  rfl

/-- The words `IdealMem` makes of the bytes of a line. -/
def idealWords (bytes : List ℕ) : List ℕ :=
  if bytes.length ≤ 4 then [min (Nat.ofDigits 256 bytes) (2 ^ 64 - 1) % 2 ^ 32]
  else [min (Nat.ofDigits 256 bytes) (2 ^ 64 - 1) % 2 ^ 32,
    min (Nat.ofDigits 256 bytes) (2 ^ 64 - 1) / 2 ^ 32 % 2 ^ 32]

theorem tokenWords_line {t : List Char} {bytes : List ℕ} (hne : t ≠ [])
    (h : lineBytes t = some bytes) : IdealMem.tokenWords t = idealWords bytes := by
  unfold IdealMem.tokenWords idealWords
  rw [if_neg hne, strtoull_line h, byteSize_line h]
  by_cases hshort : bytes.length ≤ 4
  · rw [if_pos (by omega), if_pos hshort]
  · rw [if_neg (by omega), if_neg hshort]

/-- `IdealMem` appends the words of each line. -/
theorem foldl_tokenWords (h : HasBytes lines image) (words : List ℕ) :
    lines.foldl (fun words line ↦ words ++ IdealMem.tokenWords (IdealMem.token line)) words =
      words ++ image.flatMap idealWords := by
  induction lines generalizing image words with
  | nil =>
    unfold HasBytes linesData at h
    rw [List.map_eq_nil_iff.mp h.symm]
    exact (List.append_nil _).symm
  | cons line lines ih =>
    rw [List.foldl_cons]
    rcases h.cases with ⟨hblank, hrest⟩ | ⟨bytes, rest, hdata, hbytes, rfl, hrest⟩
    · have htoken : IdealMem.token line = [] :=
        (token_eq (bytes_of_blank hblank)).trans hblank
      rw [htoken, ih hrest]
      show words ++ [] ++ _ = _
      rw [List.append_nil]
    · rw [token_eq hbytes, tokenWords_line hdata hbytes, ih hrest, List.flatMap_cons,
        List.append_assoc]

/-- The mapping after the lines of an image. -/
def mapLines (mapping : ℕ → Option String) (addr : ℕ) : List (List ℕ) → ℕ → Option String
  | [] => mapping
  | bytes :: rest => mapLines (mapWords mapping addr bytes) (addr + bytes.length) rest

theorem foldlM_parseLine (h : HasBytes lines image) (mapping : ℕ → Option String) (addr : ℕ) :
    lines.foldlM parseLine (mapping, addr) =
      .ok (mapLines mapping addr image, addr + image.flatten.length) := by
  induction lines generalizing image mapping addr with
  | nil =>
    unfold HasBytes linesData at h
    rw [List.map_eq_nil_iff.mp h.symm]
    rfl
  | cons line lines ih =>
    rw [List.foldlM_cons]
    rcases h.cases with ⟨hblank, hrest⟩ | ⟨bytes, rest, hdata, hbytes, rfl, hrest⟩
    · have hstep : parseLine (mapping, addr) line = .ok (mapping, addr) :=
        if_pos ((strip_beforeComment_eq (bytes_of_blank hblank)).trans hblank)
      rw [hstep]
      exact ih hrest mapping addr
    · have hlength := lineBytes_length hbytes
      have hstep : parseLine (mapping, addr) line =
          .ok (mapWords mapping addr bytes, addr + bytes.length) := by
        unfold parseLine
        rw [strip_beforeComment_eq hbytes, if_neg hdata, if_neg (by omega), fromHex_line hbytes]
        simp
      rw [hstep, List.flatten_cons, List.length_append, ← Nat.add_assoc]
      exact ih hrest _ _

end HasBytes

/-! ### Files -/

/-- Every carriage return of the text stands before a newline. -/
def noLoneReturn : List Char → Bool
  | [] => true
  | '\r' :: '\n' :: rest => noLoneReturn rest
  | '\r' :: _ => false
  | _ :: rest => noLoneReturn rest

theorem parse_return (line : List Char) :
    strip (beforeComment (line ++ ['\r'])) = strip (beforeComment line) := by
  by_cases hmem : '#' ∈ line
  · rw [beforeComment_append_of_mem hmem]
  · have hself := beforeComment_append_of_not_mem hmem []
    rw [List.append_nil, show beforeComment [] = [] from rfl, List.append_nil] at hself
    rw [beforeComment_append_of_not_mem hmem, show beforeComment ['\r'] = ['\r'] from rfl, hself]
    exact trimBy_append (a := []) (by simp) (by simp [isSpace])

/-- Python finds the same data lines. -/
theorem getlines_universalNewlines {text : List Char} (h : noLoneReturn text = true)
    (line : List Char) :
    (getlinesFrom line (universalNewlines text)).map (strip ∘ beforeComment) =
      (getlinesFrom line text).map (strip ∘ beforeComment) := by
  fun_induction universalNewlines text generalizing line with
  | case1 => rfl
  | case2 rest ih =>
    show (line :: getlinesFrom [] _).map _ = ((line ++ ['\r']) :: getlinesFrom [] rest).map _
    rw [List.map_cons, List.map_cons, ih h]
    congr 1
    exact (parse_return line).symm
  | case3 rest hnewline =>
    rw [noLoneReturn.eq_3 _ hnewline] at h
    cases h
  | case4 c rest hcrlf hcr ih =>
    rw [noLoneReturn.eq_4 _ _ hcrlf hcr] at h
    by_cases hnewline : c = '\n'
    · subst hnewline
      show (line :: getlinesFrom [] _).map _ = (line :: getlinesFrom [] rest).map _
      rw [List.map_cons, List.map_cons, ih h]
    · rw [getlinesFrom.eq_3 _ _ _ hnewline, getlinesFrom.eq_3 _ _ _ hnewline]
      exact ih h _

/-- What `parse_loadmem` does depends on the data of the lines only. -/
theorem foldlM_parseLine_congr {lines lines' : List (List Char)}
    (h : lines.map (strip ∘ beforeComment) = lines'.map (strip ∘ beforeComment))
    (state : (ℕ → Option String) × ℕ) :
    lines.foldlM parseLine state = lines'.foldlM parseLine state := by
  induction lines generalizing lines' state with
  | nil => rw [List.map_eq_nil_iff.mp h.symm]
  | cons line lines ih =>
    obtain ⟨line', rest, rfl, hline, hrest⟩ := List.map_eq_cons_iff.mp h.symm
    have hstep : parseLine state line = parseLine state line' := by
      unfold parseLine
      rw [show strip (beforeComment line) = strip (beforeComment line') from hline.symm]
    rw [List.foldlM_cons, List.foldlM_cons, hstep]
    exact bind_congr fun next ↦ ih hrest.symm next

section File

variable {text : List Char} {image : List (List ℕ)} (h : HasBytes (getlines text) image)

include h

theorem loadHex_eq (m : SimpleMemory) (start : ℕ) :
    m.loadHex start text = .ok (m.store start image.flatten) := by
  unfold SimpleMemory.loadHex
  rw [foldlM_loadLine h]
  rfl

theorem idealMem_words : (IdealMem.loadHex {} text).words = image.flatMap idealWords :=
  (foldl_tokenWords h []).trans (List.nil_append _)

theorem parseLoadmem_eq (hreturn : noLoneReturn text = true) (base : ℕ) :
    parseLoadmem text base = .ok (mapLines (fun _ ↦ none) base image) := by
  unfold parseLoadmem getlines
  rw [foldlM_parseLine_congr (getlines_universalNewlines hreturn [])]
  rw [show getlinesFrom [] text = getlines text from rfl, foldlM_parseLine h]
  rfl

end File

end BoomCore.Loadmem

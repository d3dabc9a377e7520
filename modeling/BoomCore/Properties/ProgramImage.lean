import BoomCore.Proof.LoadedImage
import Mathlib.Data.List.GetD

/-!
# One image from three loaders

`SimpleMemory` takes hex lines of any even length. `IdealMem` makes one or two words of a line,
whatever its length, and `parse_loadmem` starts a new word with every line. The loaders agree on
every file with the line lengths of a given file exactly when all its lines but the last have one or
two words, the last has at most two, and the image fits into the memory (`loadersAgree_iff`): for
any other lengths there are digits for which they do not.
-/

set_option autoImplicit false
set_option relaxedAutoImplicit false

namespace BoomCore.Loadmem

open Trace

/-! ### Statements -/

/-- The number of bytes of every data line. -/
def bytesPerLine (text : List Char) : List ℕ := (linesData (getlines text)).map (·.length / 2)

/-- `SimpleMemory::load_hex` does not stop with an error. -/
def Accepted (size : ℕ) (text : List Char) : Prop :=
  (SimpleMemory.loadHex { size := size } entryPc text).isOk = true

/-- At every aligned address of the image the three loaders have the same word. -/
def LoadersAgree (size : ℕ) (text : List Char) : Prop :=
  ∃ m mapping, SimpleMemory.loadHex { size := size } entryPc text = .ok m ∧
    parseLoadmem text entryPc = .ok mapping ∧
    ∀ w, 4 * w < (bytesPerLine text).sum → ∃ word,
      m.readU32 (entryPc + 4 * w) = some word ∧
      (IdealMem.loadHex {} text).read (entryPc + 4 * w) = word ∧
      mapping (entryPc + 4 * w) = some (fmtHex word 8)

/-! ### Files and images -/

theorem HasBytes.lengths {lines : List (List Char)} {image : List (List ℕ)}
    (h : HasBytes lines image) : (linesData lines).map (·.length / 2) = image.map List.length := by
  induction lines generalizing image with
  | nil =>
    unfold HasBytes linesData at h
    rw [List.map_eq_nil_iff.mp h.symm]
    rfl
  | cons line lines ih =>
    unfold linesData
    rw [List.map_cons]
    rcases h.cases with ⟨hblank, hrest⟩ | ⟨bytes, rest, hdata, hbytes, rfl, hrest⟩
    · rw [List.filter_cons_of_neg (by simp [hblank])]
      exact ih hrest
    · rw [List.filter_cons_of_pos (by simp [hdata]), List.map_cons, List.map_cons,
        lineBytes_length hbytes, Nat.mul_div_cancel_left _ (by decide)]
      exact congrArg _ (ih hrest)

theorem HasBytes.ne_nil {lines : List (List Char)} {image : List (List ℕ)}
    (h : HasBytes lines image) : ∀ bytes ∈ image, bytes ≠ [] := by
  induction lines generalizing image with
  | nil =>
    unfold HasBytes linesData at h
    rw [List.map_eq_nil_iff.mp h.symm]
    simp
  | cons line lines ih =>
    rcases h.cases with ⟨-, hrest⟩ | ⟨bytes, rest, hdata, hbytes, rfl, hrest⟩
    · exact ih hrest
    · refine List.forall_mem_cons.mpr ⟨fun hnil ↦ hdata ?_, ih hrest⟩
      have hlength := lineBytes_length hbytes
      rw [hnil] at hlength
      exact List.eq_nil_of_length_eq_zero hlength

theorem Accepted.hasBytes {size : ℕ} {text : List Char} (h : Accepted size text) :
    ∃ image, HasBytes (getlines text) image := by
  unfold Accepted SimpleMemory.loadHex at h
  cases hload : (getlines text).foldlM SimpleMemory.loadLine ({ size := size }, entryPc) with
  | error e =>
    rw [hload] at h
    cases h
  | ok state => exact hasBytes_of_accepted hload

theorem ideal_read (text : List Char) (w : ℕ) :
    (IdealMem.loadHex {} text).read (entryPc + 4 * w) =
      (IdealMem.loadHex {} text).words.getD w 0 := by
  unfold IdealMem.read
  rw [if_neg (by omega), Nat.add_sub_cancel_left, Nat.shiftRight_eq_div_pow,
    Nat.mul_div_cancel_left w (by decide)]

section Image

variable {size : ℕ} {text : List Char} {image : List (List ℕ)}
  (h : HasBytes (getlines text) image)

include h

theorem bytesPerLine_eq : bytesPerLine text = image.map List.length := h.lengths

theorem sum_bytesPerLine : (bytesPerLine text).sum = image.flatten.length := by
  rw [bytesPerLine_eq h, List.length_flatten]

theorem flatten_lt : ∀ b ∈ image.flatten, b < 256 := by
  intro b hb
  obtain ⟨bytes, hmem, hb⟩ := List.mem_flatten.mp hb
  exact h.lt bytes hmem b hb

/-- Regular lines of an image that fits load alike. -/
theorem loadersAgree_of_regular (hreturn : noLoneReturn text = true)
    (hregular : RegularLines (bytesPerLine text)) (hfits : Fits size (bytesPerLine text).sum) :
    LoadersAgree size text := by
  rw [bytesPerLine_eq h] at hregular
  rw [sum_bytesPerLine h] at hfits
  refine ⟨_, _, loadHex_eq h _ _, parseLoadmem_eq h hreturn _, fun w hw ↦ ?_⟩
  rw [sum_bytesPerLine h] at hw
  refine ⟨wordAt image.flatten w, ?_, ?_, ?_⟩
  · exact readU32_store (fun _ ↦ rfl) hfits (flatten_lt h) hw
  · rw [ideal_read, idealMem_words h, flatMap_idealWords hregular h.ne_nil h.lt, getD_wordsOf]
  · exact mapLines_get _ _ hregular hw

/-- Assumes: the loaders agree. `SimpleMemory` then has the words of `IdealMem`. -/
theorem LoadersAgree.readU32 (hagree : LoadersAgree size text) {w : ℕ}
    (hw : 4 * w < image.flatten.length) :
    (SimpleMemory.store { size := size } entryPc image.flatten).readU32 (entryPc + 4 * w) =
      some ((image.flatMap idealWords).getD w 0) := by
  obtain ⟨m, mapping, hload, -, hwords⟩ := hagree
  rw [loadHex_eq h] at hload
  obtain ⟨word, hsimple, hideal, -⟩ := hwords w (by rwa [sum_bytesPerLine h])
  rw [ideal_read, idealMem_words h] at hideal
  rw [Except.ok.inj hload, hideal]
  exact hsimple

end Image

/-! ### A file for every image -/

def hexLine (bytes : List ℕ) : List Char :=
  bytes.reverse.flatMap fun b ↦ [Nat.digitChar (b / 16), Nat.digitChar (b % 16)]

def imageText (image : List (List ℕ)) : List Char :=
  image.flatMap fun bytes ↦ hexLine bytes ++ ['\n']

theorem lineBytes_cons {hi lo : Char} {rest : List Char} {h l : ℕ} {bytes : List ℕ}
    (hhi : hexNibble hi = some h) (hlo : hexNibble lo = some l)
    (hrest : lineBytes rest = some bytes) :
    lineBytes (hi :: lo :: rest) = some (bytes ++ [16 * h + l]) := by
  unfold lineBytes
  rw [hhi, hlo, hrest]

theorem lineBytes_hexLine {bytes : List ℕ} (hbytes : ∀ b ∈ bytes, b < 256) :
    lineBytes (hexLine bytes) = some bytes := by
  have hgo : ∀ l : List ℕ, (∀ b ∈ l, b < 256) →
      lineBytes (l.flatMap fun b ↦ [Nat.digitChar (b / 16), Nat.digitChar (b % 16)]) =
        some l.reverse := by
    intro l hl
    induction l with
    | nil => rfl
    | cons b l ih =>
      have hb := hl b List.mem_cons_self
      have hhi : hexNibble (Nat.digitChar (b / 16)) = some (b / 16) :=
        digitIn_digitChar le_rfl (by omega)
      have hlo : hexNibble (Nat.digitChar (b % 16)) = some (b % 16) :=
        digitIn_digitChar le_rfl (by omega)
      have hrest := ih fun c hc ↦ hl c (List.mem_cons_of_mem _ hc)
      exact (lineBytes_cons hhi hlo hrest).trans (by rw [Nat.div_add_mod, List.reverse_cons])
  have h := hgo bytes.reverse fun b hb ↦ hbytes b (List.mem_reverse.mp hb)
  rwa [List.reverse_reverse] at h

section ImageText

variable {image : List (List ℕ)} (hbytes : ∀ bytes ∈ image, ∀ b ∈ bytes, b < 256)

include hbytes

theorem getlines_imageText : getlines (imageText image) = image.map hexLine := by
  have hlines : imageText image = (image.map hexLine).flatMap (· ++ ['\n']) := by
    rw [List.flatMap_map]
    rfl
  rw [hlines]
  refine getlines_flatMap fun line hline hmem ↦ ?_
  obtain ⟨bytes, hbytes', rfl⟩ := List.mem_map.mp hline
  exact absurd (lineBytes_digits (lineBytes_hexLine (hbytes bytes hbytes')) _ hmem) (by decide)

theorem hasBytes_imageText (hne : ∀ bytes ∈ image, bytes ≠ []) :
    HasBytes (getlines (imageText image)) image := by
  rw [getlines_imageText hbytes]
  induction image with
  | nil => rfl
  | cons bytes image ih =>
    have hline := lineBytes_hexLine (hbytes bytes List.mem_cons_self)
    have hdata : SimpleMemory.lineData (hexLine bytes) = hexLine bytes := by
      have hdigits := lineBytes_digits hline
      have hcut : beforeComment (hexLine bytes) = hexLine bytes :=
        List.takeWhile_eq_self_iff.mpr fun c hc ↦ by
          simpa using (digit_plain (hdigits c hc)).2.2.1
      rw [lineData_eq, hcut]
      exact trimBy_eq_self fun c hc ↦ (digit_plain (hdigits c hc)).1
    have hnil : hexLine bytes ≠ [] := by
      intro heq
      rw [heq] at hline
      exact hne bytes List.mem_cons_self (Option.some.inj hline).symm
    unfold HasBytes linesData
    rw [List.map_cons, List.map_cons, hdata, List.filter_cons_of_pos (by simpa using hnil),
      List.map_cons, hline, List.map_cons]
    exact congrArg _ (ih (fun b hb ↦ hbytes b (List.mem_cons_of_mem _ hb))
      fun b hb ↦ hne b (List.mem_cons_of_mem _ hb))

theorem noLoneReturn_imageText : noLoneReturn (imageText image) = true := by
  have hplain : ∀ text : List Char, (∀ c ∈ text, c ≠ '\r') → noLoneReturn text = true := by
    intro text htext
    fun_induction noLoneReturn text with
    | case1 => rfl
    | case2 rest ih => exact absurd rfl (htext '\r' List.mem_cons_self)
    | case3 rest => exact absurd rfl (htext '\r' List.mem_cons_self)
    | case4 c rest _ _ ih => exact ih fun d hd ↦ htext d (List.mem_cons_of_mem _ hd)
  refine hplain _ fun c hc ↦ ?_
  obtain ⟨bytes, hmem, hc⟩ := List.mem_flatMap.mp hc
  rcases List.mem_append.mp hc with hc | hc
  · have hdigit := lineBytes_digits (lineBytes_hexLine (hbytes bytes hmem)) c hc
    exact fun heq ↦ absurd hdigit (heq ▸ by decide)
  · rw [List.mem_singleton.mp hc]
    decide

end ImageText

/-! ### Lines of other lengths -/

theorem ofDigits_zeros (n : ℕ) : Nat.ofDigits 256 (List.replicate n 0) = 0 := by
  induction n with
  | zero => rfl
  | succ n ih => rw [List.replicate_succ, Nat.ofDigits_cons, ih]

/-- A line with a one in its highest byte only. -/
def topLine (k : ℕ) : List ℕ := List.replicate (k - 1) 0 ++ [1]

/-- `IdealMem` reads such a line of more than eight bytes as the largest number. -/
theorem idealWords_topLine {k : ℕ} (hk : 8 < k) :
    idealWords (topLine k) = [2 ^ 32 - 1, 2 ^ 32 - 1] := by
  have hvalue : 2 ^ 64 - 1 ≤ Nat.ofDigits 256 (topLine k) := by
    have hpow : 256 ^ 8 ≤ 256 ^ (k - 1) := Nat.pow_le_pow_right (by decide) (by omega)
    unfold topLine
    rw [Nat.ofDigits_append, ofDigits_zeros, List.length_replicate, Nat.ofDigits_singleton]
    omega
  have hlength : (topLine k).length = k := by
    unfold topLine
    rw [List.length_append, List.length_replicate, List.length_singleton]
    omega
  unfold idealWords
  rw [hlength, if_neg (by omega), min_eq_right hvalue]
  rfl

theorem wordAt_topLine {k : ℕ} (hk : 8 < k) (rest : List ℕ) : wordAt (topLine k ++ rest) 0 = 0 := by
  have hsplit : topLine k = List.replicate 4 0 ++ (List.replicate (k - 5) 0 ++ [1]) := by
    unfold topLine
    rw [← List.append_assoc, ← List.replicate_add]
    congr 2
    omega
  rw [hsplit, List.append_assoc]
  rfl

/-- `IdealMem` has another word than the image somewhere. -/
def Misread (image : List (List ℕ)) : Prop :=
  ∃ w, 4 * w < image.flatten.length ∧
    (image.flatMap idealWords).getD w 0 ≠ wordAt image.flatten w

theorem misread_topLine {k : ℕ} (hk : 8 < k) (rest : List (List ℕ)) :
    Misread (topLine k :: rest) := by
  refine ⟨0, ?_, ?_⟩
  · rw [List.flatten_cons, List.length_append]
    unfold topLine
    rw [List.length_append, List.length_singleton]
    omega
  · rw [List.flatMap_cons, idealWords_topLine hk, List.flatten_cons, wordAt_topLine hk]
    show 2 ^ 32 - 1 ≠ 0
    decide

section Misread

variable {bytes : List ℕ} (hne : bytes ≠ []) (hlength : bytes.length ≤ 8)
  (hbytes : ∀ b ∈ bytes, b < 256)

include hne hlength hbytes

/-- Behind a line of whole words nothing changes. -/
theorem Misread.cons {image : List (List ℕ)} (h : Misread image) {n : ℕ}
    (hn : bytes.length = 4 * n) : Misread (bytes :: image) := by
  obtain ⟨w, hw, hdiffer⟩ := h
  have hwords : (wordsOf bytes).length = n := by
    unfold wordsOf
    rw [List.length_map, List.length_range]
    omega
  refine ⟨n + w, ?_, ?_⟩
  · rw [List.flatten_cons, List.length_append]
    omega
  · rw [List.flatMap_cons, idealWords_of_le hne hlength hbytes, List.flatten_cons,
      wordAt_append bytes hn, List.getD_append_right _ _ _ _ (by omega), hwords,
      Nat.add_sub_cancel_left]
    exact hdiffer

/-- The last word of a line that is not of whole words lacks the bytes of the next line. -/
theorem misread_partial {next : List ℕ} {image : List (List ℕ)} (hragged : bytes.length % 4 ≠ 0)
    (hnext : next.getD 0 0 ≠ 0)
    (hsmall : ∀ b ∈ (bytes :: next :: image).flatten, b < 256) :
    Misread (bytes :: next :: image) := by
  have hwords : bytes.length / 4 < (wordsOf bytes).length := by
    unfold wordsOf
    rw [List.length_map, List.length_range]
    omega
  refine ⟨bytes.length / 4, ?_, fun heq ↦ hnext ?_⟩
  · rw [List.flatten_cons, List.length_append]
    omega
  · rw [List.flatMap_cons, idealWords_of_le hne hlength hbytes, List.getD_append _ _ _ _ hwords,
      getD_wordsOf] at heq
    have hbyte := getD_eq_of_wordAt_eq hbytes hsmall heq (Nat.mod_lt bytes.length (by decide))
    rw [Nat.div_add_mod, List.getD_eq_default _ _ le_rfl, List.flatten_cons,
      List.getD_append_right _ _ _ _ le_rfl, Nat.sub_self, List.flatten_cons] at hbyte
    cases next with
    | nil => rfl
    | cons b next => exact hbyte.symm

end Misread

/-- Lines of the given lengths with one byte throughout. -/
def constLines (c : ℕ) (lengths : List ℕ) : List (List ℕ) := lengths.map fun k ↦ List.replicate k c

theorem constLines_length (c : ℕ) (lengths : List ℕ) :
    (constLines c lengths).map List.length = lengths := by
  unfold constLines
  rw [List.map_map]
  exact List.map_id'' (fun k ↦ List.length_replicate) lengths

theorem constLines_lt {c : ℕ} (hc : c < 256) (lengths : List ℕ) :
    ∀ bytes ∈ constLines c lengths, ∀ b ∈ bytes, b < 256 := by
  intro bytes hmem b hb
  obtain ⟨k, -, rfl⟩ := List.mem_map.mp hmem
  rwa [List.eq_of_mem_replicate hb]

/-- Assumes: the lines are not regular. `IdealMem` misreads some bytes of these lengths. -/
theorem exists_misread {lengths : List ℕ} (hpos : ∀ k ∈ lengths, 0 < k)
    (hirregular : ¬ RegularLines lengths) :
    ∃ image : List (List ℕ), image.map List.length = lengths ∧
      (∀ bytes ∈ image, ∀ b ∈ bytes, b < 256) ∧ Misread image := by
  induction lengths with
  | nil => exact absurd trivial hirregular
  | cons k rest ih =>
    by_cases hlong : 8 < k
    · -- a line of more than two words
      have htop : (topLine k).length = k := by
        unfold topLine
        rw [List.length_append, List.length_replicate, List.length_singleton]
        omega
      refine ⟨topLine k :: constLines 0 rest, ?_, ?_, misread_topLine hlong _⟩
      · rw [List.map_cons, htop, constLines_length]
      · refine List.forall_mem_cons.mpr ⟨fun b hb ↦ ?_, constLines_lt (by decide) rest⟩
        rcases List.mem_append.mp hb with hb | hb
        · rw [List.eq_of_mem_replicate hb]
          decide
        · rw [List.mem_singleton.mp hb]
          decide
    · have hk := hpos k List.mem_cons_self
      cases rest with
      | nil => exact absurd (Nat.le_of_not_lt hlong) hirregular
      | cons k' rest =>
        have hk' := hpos k' (List.mem_cons_of_mem _ List.mem_cons_self)
        have hne : ∀ c : ℕ, List.replicate k c ≠ [] := fun c h ↦ by
          have hlength := congrArg List.length h
          rw [List.length_replicate, List.length_nil] at hlength
          omega
        by_cases hwhole : k = 4 ∨ k = 8
        · obtain ⟨image, hlengths, hsmall, hmis⟩ := ih
            (fun j hj ↦ hpos j (List.mem_cons_of_mem _ hj)) fun hrest ↦ hirregular ⟨hwhole, hrest⟩
          have hzero : ∀ b ∈ List.replicate k 0, b < 256 := fun b hb ↦ by
            rw [List.eq_of_mem_replicate hb]
            decide
          refine ⟨List.replicate k 0 :: image, ?_, List.forall_mem_cons.mpr ⟨hzero, hsmall⟩,
            hmis.cons (hne 0) ?_ hzero (n := k / 4) ?_⟩
          · rw [List.map_cons, List.length_replicate, hlengths]
          · rw [List.length_replicate]
            omega
          · rw [List.length_replicate]
            omega
        · -- a line that is not of whole words, with a byte behind it
          have hsmall := constLines_lt (c := 255) (by decide) (k :: k' :: rest)
          refine ⟨constLines 255 (k :: k' :: rest), constLines_length _ _, hsmall,
            misread_partial (hne 255) ?_ (hsmall _ List.mem_cons_self) ?_ ?_ ?_⟩
          · rw [List.length_replicate]
            omega
          · rw [List.length_replicate]
            omega
          · obtain ⟨j, rfl⟩ := Nat.exists_eq_succ_of_ne_zero hk'.ne'
            exact fun h ↦ by cases h
          · intro b hb
            obtain ⟨bytes, hmem, hb⟩ := List.mem_flatten.mp hb
            exact hsmall bytes hmem b hb

/-! ### An image that does not fit -/

/-- The bytes of the given lengths that are zero but for the first. -/
def firstByteOnly : List ℕ → List (List ℕ)
  | [] => []
  | k :: rest => (1 :: List.replicate (k - 1) 0) :: constLines 0 rest

theorem firstByteOnly_length {lengths : List ℕ} (hpos : ∀ k ∈ lengths, 0 < k) :
    (firstByteOnly lengths).map List.length = lengths := by
  cases lengths with
  | nil => rfl
  | cons k rest =>
    have hk := hpos k List.mem_cons_self
    unfold firstByteOnly
    rw [List.map_cons, constLines_length, List.length_cons, List.length_replicate,
      Nat.sub_add_cancel hk]

theorem firstByteOnly_lt (lengths : List ℕ) :
    ∀ bytes ∈ firstByteOnly lengths, ∀ b ∈ bytes, b < 256 := by
  cases lengths with
  | nil => intro bytes hmem; cases hmem
  | cons k rest =>
    refine List.forall_mem_cons.mpr ⟨?_, constLines_lt (by decide) rest⟩
    refine List.forall_mem_cons.mpr ⟨by decide, fun b hb ↦ ?_⟩
    rw [List.eq_of_mem_replicate hb]
    decide

theorem idealWords_zeros (k : ℕ) : ∀ word ∈ idealWords (List.replicate k 0), word = 0 := by
  unfold idealWords
  rw [ofDigits_zeros, Nat.zero_min, Nat.zero_mod, Nat.zero_div, Nat.zero_mod]
  split_ifs <;> simp

theorem idealWords_firstByteOnly {k : ℕ} {rest : List ℕ} (w : ℕ) :
    ((firstByteOnly (k :: rest)).flatMap idealWords).getD w 0 = if w = 0 then 1 else 0 := by
  have hfirst : ∃ zeros, idealWords (1 :: List.replicate (k - 1) 0) = 1 :: zeros ∧
      ∀ word ∈ zeros, word = 0 := by
    unfold idealWords
    rw [Nat.ofDigits_cons, ofDigits_zeros]
    split_ifs
    · exact ⟨[], rfl, by simp⟩
    · exact ⟨[0], rfl, by simp⟩
  obtain ⟨zeros, hwords, hzeros⟩ := hfirst
  have hrest : ∀ word ∈ zeros ++ (constLines 0 rest).flatMap idealWords, word = 0 := by
    intro word hword
    rcases List.mem_append.mp hword with hword | hword
    · exact hzeros word hword
    · obtain ⟨bytes, hmem, hword⟩ := List.mem_flatMap.mp hword
      obtain ⟨j, -, rfl⟩ := List.mem_map.mp hmem
      exact idealWords_zeros j word hword
  unfold firstByteOnly
  rw [List.flatMap_cons, hwords, List.cons_append]
  cases w with
  | zero => rfl
  | succ w =>
    rw [List.getD_cons_succ, if_neg (Nat.succ_ne_zero w), List.getD_eq_getElem?_getD]
    cases hword : (zeros ++ (constLines 0 rest).flatMap idealWords)[w]? with
    | none => rfl
    | some word => exact hrest word (List.mem_of_getElem? hword)

/-- Assumes: the image does not fit. Its first byte is also read behind its end, so the loaders do
not agree on an image with a one there and zeros elsewhere. -/
theorem not_loadersAgree_of_not_fits {size : ℕ} {text : List Char} {lengths : List ℕ}
    (hpos : ∀ k ∈ lengths, 0 < k) (h : HasBytes (getlines text) (firstByteOnly lengths))
    (hfits : ¬ Fits size lengths.sum) : ¬ LoadersAgree size text := by
  intro hagree
  obtain ⟨hsize, hlarge⟩ : size ≠ 0 ∧ size < 4 * ((lengths.sum + 3) / 4) := by
    unfold Fits at hfits
    omega
  cases lengths with
  | nil => exact absurd hlarge (Nat.not_lt_zero size)
  | cons k rest =>
    have hk := hpos k List.mem_cons_self
    have hlength : (firstByteOnly (k :: rest)).flatten.length = (k :: rest).sum := by
      rw [List.length_flatten, firstByteOnly_length hpos]
    have hvalues : ∀ a b, (SimpleMemory.store { size := size } entryPc
        (firstByteOnly (k :: rest)).flatten).bytes a = some b → b < 256 :=
      store_lt _ (fun a b hb ↦ by cases hb) (flatten_lt h)
    have hbyte : ∀ w, 4 * w < (k :: rest).sum → ∀ i < 4,
        (SimpleMemory.store { size := size } entryPc
          (firstByteOnly (k :: rest)).flatten).byteAt (entryPc + 4 * w + i) =
          (if w = 0 then 1 else 0) / 256 ^ i % 256 := by
      intro w hw i hi
      have hword := hagree.readU32 h (w := w) (by rwa [hlength])
      rw [idealWords_firstByteOnly] at hword
      exact byteAt_of_readU32 hvalues hword hi
    have hwrap : (SimpleMemory.store { size := size } entryPc
        (firstByteOnly (k :: rest)).flatten).byteAt (entryPc + size) =
        (SimpleMemory.store { size := size } entryPc
          (firstByteOnly (k :: rest)).flatten).byteAt entryPc := by
      unfold SimpleMemory.byteAt
      rw [store_wrap, store_wrap]
      unfold SimpleMemory.wrap
      rw [if_neg hsize, if_neg hsize, Nat.add_mod_right]
    have hfirst := hbyte 0 (by rw [List.sum_cons]; omega) 0 (by decide)
    have hbehind := hbyte (size / 4) (by omega) (size % 4) (Nat.mod_lt size (by decide))
    rw [Nat.add_assoc, Nat.div_add_mod, hwrap] at hbehind
    rw [Nat.mul_zero, Nat.add_zero, hbehind] at hfirst
    by_cases hsmall : size / 4 = 0
    · have hmod : size % 4 = 1 ∨ size % 4 = 2 ∨ size % 4 = 3 := by omega
      rw [if_pos hsmall] at hfirst
      rcases hmod with hmod | hmod | hmod <;>
        · rw [hmod] at hfirst
          exact absurd hfirst (by decide)
    · rw [if_neg hsmall, Nat.zero_div] at hfirst
      exact absurd hfirst (by decide)

/-! ### The condition on the line lengths -/

/-- Assumes: `SimpleMemory` accepts the file. The loaders agree on all files with its line lengths
exactly when the lines are regular and the image fits. -/
theorem loadersAgree_iff {size : ℕ} {text : List Char} (haccepted : Accepted size text) :
    (∀ text', Accepted size text' → noLoneReturn text' = true →
        bytesPerLine text' = bytesPerLine text → LoadersAgree size text') ↔
      RegularLines (bytesPerLine text) ∧ Fits size (bytesPerLine text).sum := by
  obtain ⟨image, himage⟩ := haccepted.hasBytes
  have hpos : ∀ k ∈ bytesPerLine text, 0 < k := by
    intro k hk
    rw [bytesPerLine_eq himage] at hk
    obtain ⟨bytes, hmem, rfl⟩ := List.mem_map.mp hk
    exact List.length_pos_iff.mpr (himage.ne_nil bytes hmem)
  constructor
  · intro hall
    have hfile : ∀ image' : List (List ℕ), image'.map List.length = bytesPerLine text →
        (∀ bytes ∈ image', ∀ b ∈ bytes, b < 256) →
        HasBytes (getlines (imageText image')) image' ∧ LoadersAgree size (imageText image') := by
      intro image' hlengths hsmall
      have hne : ∀ bytes ∈ image', bytes ≠ [] := fun bytes hmem hnil ↦ by
        have hlength := hpos bytes.length (hlengths ▸ List.mem_map_of_mem hmem)
        rw [hnil] at hlength
        exact absurd hlength (Nat.lt_irrefl 0)
      have hbytes := hasBytes_imageText hsmall hne
      refine ⟨hbytes, hall _ ?_ (noLoneReturn_imageText hsmall) ?_⟩
      · unfold Accepted
        rw [loadHex_eq hbytes]
        rfl
      · rw [bytesPerLine_eq hbytes, hlengths]
    have hfits : Fits size (bytesPerLine text).sum := by
      by_contra hnot
      obtain ⟨hbytes, hagree⟩ := hfile (firstByteOnly (bytesPerLine text))
        (firstByteOnly_length hpos) (firstByteOnly_lt _)
      exact not_loadersAgree_of_not_fits hpos hbytes hnot hagree
    refine ⟨?_, hfits⟩
    by_contra hirregular
    obtain ⟨image', hlengths, hsmall, w, hw, hdiffer⟩ := exists_misread hpos hirregular
    obtain ⟨hbytes, hagree⟩ := hfile image' hlengths hsmall
    have hideal := hagree.readU32 hbytes hw
    rw [← hlengths, ← List.length_flatten] at hfits
    rw [readU32_store (fun _ ↦ rfl) hfits (flatten_lt hbytes) hw] at hideal
    exact hdiffer (Option.some.inj hideal).symm
  · rintro ⟨hregular, hfits⟩ text' haccepted' hreturn hlengths
    obtain ⟨image', himage'⟩ := haccepted'.hasBytes
    rw [← hlengths] at hregular hfits
    exact loadersAgree_of_regular himage' hreturn hregular hfits

/-! ### Two files -/

/-- Two instructions on a line, as in the shipped images. -/
def twoWordLine : List Char := "# image\n0010009300500093\n".toList

/-- Three instructions on a line. -/
def threeWordLine : List Char := "000000730010009300500093\n".toList

theorem loadersAgree_iff_twoWordLine :
    (∀ text', Accepted 0x10000000 text' → noLoneReturn text' = true →
        bytesPerLine text' = bytesPerLine twoWordLine → LoadersAgree 0x10000000 text') ↔
      RegularLines (bytesPerLine twoWordLine) ∧ Fits 0x10000000 (bytesPerLine twoWordLine).sum :=
  loadersAgree_iff (by unfold Accepted; decide +kernel)

/-- `IdealMem` has neither the first nor the last instruction of three on a line. -/
theorem threeWordLine_misread :
    Accepted 0x10000000 threeWordLine ∧ noLoneReturn threeWordLine = true ∧
      (IdealMem.loadHex {} threeWordLine).read entryPc = 0xFFFFFFFF ∧
      (IdealMem.loadHex {} threeWordLine).read (entryPc + 8) = 0 ∧
      ¬ LoadersAgree 0x10000000 threeWordLine := by
  have hbytes : HasBytes (getlines threeWordLine)
      [[0x93, 0x00, 0x50, 0x00, 0x93, 0x00, 0x10, 0x00, 0x73, 0x00, 0x00, 0x00]] := by
    unfold HasBytes
    decide +kernel
  refine ⟨?_, by decide +kernel, by decide +kernel, by decide +kernel, fun hagree ↦ ?_⟩
  · unfold Accepted
    decide +kernel
  · exact absurd (hagree.readU32 hbytes (w := 0) (by decide)) (by decide +kernel)

end BoomCore.Loadmem

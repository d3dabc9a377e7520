import BoomCore.Proof.Loadmem

/-!
# The words of a loaded image

The byte that `SimpleMemory` has for each offset of an image that fits, `read_u32` as the sum of
four such bytes, and the words of `IdealMem` and of the mapping of `parse_loadmem` when every line
but the last has one or two words.
-/

set_option autoImplicit false
set_option relaxedAutoImplicit false

namespace BoomCore.Loadmem

open Trace

/-! ### `SimpleMemory` -/

section Store

variable (m : SimpleMemory)

/-- Offsets below the size of the memory are different places in it. -/
theorem wrap_inj {addr i j : ℕ} (hi : m.size = 0 ∨ i < m.size) (hj : m.size = 0 ∨ j < m.size)
    (h : m.wrap (addr + i) = m.wrap (addr + j)) : i = j := by
  unfold SimpleMemory.wrap at h
  by_cases hsize : m.size = 0
  · rw [if_pos hsize, if_pos hsize] at h
    exact Nat.add_left_cancel h
  · rw [if_neg hsize, if_neg hsize] at h
    have hmod : i ≡ j [MOD m.size] := Nat.ModEq.add_left_cancel' addr h
    exact hmod.eq_of_lt_of_lt (hi.resolve_left hsize) (hj.resolve_left hsize)

theorem store_size (addr : ℕ) (bytes : List ℕ) : (m.store addr bytes).size = m.size := by
  induction bytes generalizing m addr with
  | nil => rfl
  | cons byte bytes ih => exact ih _ (addr + 1)

theorem store_wrap (addr : ℕ) (bytes : List ℕ) (a : ℕ) :
    (m.store addr bytes).wrap a = m.wrap a := by
  unfold SimpleMemory.wrap
  rw [store_size]

/-- A place to which no byte goes keeps what it has. -/
theorem store_of_ne {addr key : ℕ} {bytes : List ℕ}
    (h : ∀ i < bytes.length, key ≠ m.wrap (addr + i)) :
    (m.store addr bytes).bytes key = m.bytes key := by
  induction bytes generalizing m addr with
  | nil => rfl
  | cons byte bytes ih =>
    show (SimpleMemory.store _ (addr + 1) bytes).bytes key = _
    rw [ih]
    · exact Function.update_of_ne (h 0 (Nat.succ_pos _)) _ _
    · intro i hi
      rw [Nat.add_assoc, Nat.add_comm 1]
      exact h (i + 1) (Nat.succ_lt_succ hi)

/-- Assumes: the bytes fit. Each is where it was stored. -/
theorem store_get {addr i : ℕ} {bytes : List ℕ} (hi : i < bytes.length)
    (hfits : m.size = 0 ∨ bytes.length ≤ m.size) :
    (m.store addr bytes).bytes (m.wrap (addr + i)) = some bytes[i] := by
  induction bytes generalizing m addr i with
  | nil => exact absurd hi (Nat.not_lt_zero i)
  | cons byte bytes ih =>
    have hfits' : m.size = 0 ∨ bytes.length + 1 ≤ m.size := hfits
    show (SimpleMemory.store { m with bytes := Function.update m.bytes (m.wrap addr) (some byte) }
      (addr + 1) bytes).bytes _ = _
    cases i with
    | zero =>
      rw [store_of_ne]
      · exact Function.update_self _ _ _
      · intro j hj heq
        have heq' : m.wrap (addr + 0) = m.wrap (addr + (j + 1)) := by
          rw [Nat.add_comm j, ← Nat.add_assoc]
          exact heq
        exact absurd (wrap_inj m (hfits'.imp_right fun h ↦ by omega)
          (hfits'.imp_right fun h ↦ by omega) heq') (Nat.succ_ne_zero j).symm
    | succ i =>
      have hlength : bytes.length ≤ bytes.length + 1 := Nat.le_succ _
      have hget := @ih { m with bytes := Function.update m.bytes (m.wrap addr) (some byte) }
        (addr + 1) i (Nat.lt_of_succ_lt_succ hi) (hfits'.imp_right hlength.trans)
      rw [Nat.add_assoc, Nat.add_comm 1] at hget
      exact hget

theorem store_lt {addr : ℕ} {bytes : List ℕ} (hm : ∀ a b, m.bytes a = some b → b < 256)
    (hbytes : ∀ b ∈ bytes, b < 256) (a b : ℕ) (h : (m.store addr bytes).bytes a = some b) :
    b < 256 := by
  induction bytes generalizing m addr with
  | nil => exact hm a b h
  | cons byte bytes ih =>
    refine ih _ (fun a' b' h' ↦ ?_) (fun b' hb' ↦ hbytes b' (List.mem_cons_of_mem _ hb')) h
    replace h' : Function.update m.bytes (m.wrap addr) (some byte) a' = some b' := h'
    rw [Function.update_apply] at h'
    split_ifs at h'
    · exact Option.some.inj h' ▸ hbytes byte List.mem_cons_self
    · exact hm a' b' h'

end Store

/-- The byte that `read_u32` takes at an address. -/
def SimpleMemory.byteAt (m : SimpleMemory) (addr : ℕ) : ℕ := (m.bytes (m.wrap addr)).getD 0

theorem or_shift_eq {a b c d : ℕ} (ha : a < 256) (hb : b < 256) (hc : c < 256) :
    a ||| b <<< 8 ||| c <<< 16 ||| d <<< 24 = a + 256 * (b + 256 * (c + 256 * d)) := by
  have h1 : a ||| b <<< 8 = b <<< 8 + a := by
    rw [Nat.or_comm, ← Nat.shiftLeft_add_eq_or_of_lt (show a < 2 ^ 8 from ha)]
  have h2 : (b <<< 8 + a) ||| c <<< 16 = c <<< 16 + (b <<< 8 + a) := by
    rw [Nat.or_comm, ← Nat.shiftLeft_add_eq_or_of_lt (by rw [Nat.shiftLeft_eq]; omega)]
  have h3 : (c <<< 16 + (b <<< 8 + a)) ||| d <<< 24 = d <<< 24 + (c <<< 16 + (b <<< 8 + a)) := by
    rw [Nat.or_comm, ← Nat.shiftLeft_add_eq_or_of_lt (by
      rw [Nat.shiftLeft_eq, Nat.shiftLeft_eq]; omega)]
  rw [h1, h2, h3, Nat.shiftLeft_eq, Nat.shiftLeft_eq, Nat.shiftLeft_eq]
  omega

/-- Values that are missing count as zero. -/
theorem foldl_or_filterMap {α : Type*} (f : α → Option ℕ) (l : List α) (acc : ℕ) :
    (l.filterMap f).foldl (· ||| ·) acc = l.foldl (fun acc i ↦ acc ||| (f i).getD 0) acc := by
  induction l generalizing acc with
  | nil => rfl
  | cons a l ih =>
    cases hf : f a with
    | none =>
      rw [List.filterMap_cons_none hf, List.foldl_cons, hf, ih]
      exact congrArg (l.foldl _) (Nat.or_zero acc).symm
    | some b => rw [List.filterMap_cons_some hf, List.foldl_cons, List.foldl_cons, hf, ih]; rfl

section Words

variable {m : SimpleMemory} (hm : ∀ a b, m.bytes a = some b → b < 256)

include hm

theorem byteAt_lt (addr : ℕ) : m.byteAt addr < 256 := by
  unfold SimpleMemory.byteAt
  cases hbyte : m.bytes (m.wrap addr) with
  | none => decide
  | some b => exact hm _ b hbyte

/-- Assumes: the stored values are bytes. A word that `read_u32` finds is the sum of four bytes. -/
theorem readU32_eq {addr word : ℕ} (h : m.readU32 addr = some word) :
    word = m.byteAt addr + 256 * (m.byteAt (addr + 1) +
      256 * (m.byteAt (addr + 2) + 256 * m.byteAt (addr + 3))) := by
  rw [← or_shift_eq (byteAt_lt hm addr) (byteAt_lt hm (addr + 1)) (byteAt_lt hm (addr + 2))]
  unfold SimpleMemory.readU32 at h
  dsimp only at h
  split_ifs at h with hseen
  have hshift : ∀ i, ((m.bytes (m.wrap (addr + i))).map (· <<< (8 * i))).getD 0 =
      m.byteAt (addr + i) <<< (8 * i) := by
    intro i
    unfold SimpleMemory.byteAt
    cases m.bytes (m.wrap (addr + i)) with
    | none => exact (Nat.zero_shiftLeft _).symm
    | some b => rfl
  rw [← Option.some.inj h, foldl_or_filterMap]
  simp only [hshift, show List.range 4 = [0, 1, 2, 3] from rfl, List.foldl_cons, List.foldl_nil,
    Nat.zero_or, Nat.mul_zero, Nat.shiftLeft_zero, Nat.add_zero]

theorem byteAt_of_readU32 {addr word i : ℕ} (h : m.readU32 addr = some word) (hi : i < 4) :
    m.byteAt (addr + i) = word / 256 ^ i % 256 := by
  have hsum := readU32_eq hm h
  have h0 := byteAt_lt hm addr
  have h1 := byteAt_lt hm (addr + 1)
  have h2 := byteAt_lt hm (addr + 2)
  have h3 := byteAt_lt hm (addr + 3)
  interval_cases i
  · rw [Nat.add_zero]
    omega
  all_goals omega

end Words

theorem readU32_isSome {m : SimpleMemory} {addr : ℕ} (h : (m.bytes (m.wrap addr)).isSome = true) :
    ∃ word, m.readU32 addr = some word := by
  obtain ⟨b, hb⟩ := Option.isSome_iff_exists.mp h
  have hmem : b <<< (8 * 0) ∈ (List.range 4).filterMap fun i ↦
      (m.bytes (m.wrap (addr + i))).map (· <<< (8 * i)) :=
    List.mem_filterMap.mpr ⟨0, by decide, by rw [Nat.add_zero, hb]; rfl⟩
  unfold SimpleMemory.readU32
  dsimp only
  rw [if_neg (List.ne_nil_of_mem hmem)]
  exact ⟨_, rfl⟩

/-- The image, in whole words, fits into a memory of this size; a size of zero is no bound. -/
def Fits (size length : ℕ) : Prop := size = 0 ∨ 4 * ((length + 3) / 4) ≤ size

section Fits

variable {m : SimpleMemory} {addr : ℕ} {bytes : List ℕ} (hempty : ∀ a, m.bytes a = none)
  (hfits : Fits m.size bytes.length)

include hempty hfits

omit hempty in
theorem Fits.length_le : m.size = 0 ∨ bytes.length ≤ m.size := hfits.imp_right fun h ↦ by omega

/-- Assumes: the image fits. Its bytes are where they belong, and zero follows them. -/
theorem byteAt_store {o : ℕ} (ho : o < 4 * ((bytes.length + 3) / 4)) :
    (m.store addr bytes).byteAt (addr + o) = bytes.getD o 0 := by
  have hbound : ∀ i < 4 * ((bytes.length + 3) / 4), m.size = 0 ∨ i < m.size := fun i hi ↦
    hfits.imp_right hi.trans_le
  unfold SimpleMemory.byteAt
  rw [store_wrap, List.getD_eq_getElem?_getD]
  by_cases hin : o < bytes.length
  · rw [store_get m hin hfits.length_le, List.getElem?_eq_getElem hin]
  · rw [store_of_ne, List.getElem?_eq_none (by omega), hempty]
    intro i hi heq
    have hoi := wrap_inj m (hbound o ho) (hbound i (by omega)) heq
    omega

/-- Assumes: the image fits. `read_u32` finds its words. -/
theorem readU32_store {w : ℕ} (hbytes : ∀ b ∈ bytes, b < 256) (hw : 4 * w < bytes.length) :
    (m.store addr bytes).readU32 (addr + 4 * w) = some (wordAt bytes w) := by
  have hfirst : ((m.store addr bytes).bytes
      ((m.store addr bytes).wrap (addr + 4 * w))).isSome = true := by
    rw [store_wrap, store_get m hw hfits.length_le]
    rfl
  have hvalues : ∀ a b, (m.store addr bytes).bytes a = some b → b < 256 :=
    store_lt m (fun a b h ↦ by rw [hempty a] at h; cases h) hbytes
  obtain ⟨word, hword⟩ := readU32_isSome hfirst
  have hsum := readU32_eq hvalues hword
  rw [hword, hsum, wordAt_eq, byteAt_store hempty hfits (by omega), Nat.add_assoc addr,
    byteAt_store hempty hfits (by omega), Nat.add_assoc addr,
    byteAt_store hempty hfits (by omega), Nat.add_assoc addr,
    byteAt_store hempty hfits (by omega)]

end Fits

/-! ### Lines of one or two words -/

/-- Every line but the last has four or eight bytes, and the last at most eight. -/
def RegularLines : List ℕ → Prop
  | [] => True
  | [k] => k ≤ 8
  | k :: k' :: rest => (k = 4 ∨ k = 8) ∧ RegularLines (k' :: rest)

theorem ofDigits_lt {bytes : List ℕ} (hbytes : ∀ b ∈ bytes, b < 256) {n : ℕ}
    (hlength : bytes.length ≤ n) : Nat.ofDigits 256 bytes < 256 ^ n :=
  (Nat.ofDigits_lt_base_pow_length (by decide) hbytes).trans_le
    (Nat.pow_le_pow_right (by decide) hlength)

/-- `IdealMem` makes the words of a line of at most eight bytes. -/
theorem idealWords_of_le {bytes : List ℕ} (hne : bytes ≠ []) (hlength : bytes.length ≤ 8)
    (hbytes : ∀ b ∈ bytes, b < 256) : idealWords bytes = wordsOf bytes := by
  have hpos : 0 < bytes.length := List.length_pos_iff.mpr hne
  have hsmall : min (Nat.ofDigits 256 bytes) (2 ^ 64 - 1) = Nat.ofDigits 256 bytes := by
    have hlt := ofDigits_lt hbytes hlength
    omega
  have hsplit : Nat.ofDigits 256 bytes =
      Nat.ofDigits 256 (bytes.take 4) + 2 ^ 32 * Nat.ofDigits 256 (bytes.drop 4) := by
    by_cases hshort : bytes.length ≤ 4
    · rw [List.take_of_length_le hshort, List.drop_eq_nil_of_le hshort]
      rfl
    · conv_lhs => rw [← List.take_append_drop 4 bytes]
      rw [Nat.ofDigits_append, List.length_take, min_eq_left (by omega)]
      norm_num
  have hlow := ofDigits_lt (fun b hb ↦ hbytes b (List.mem_of_mem_take hb))
    (List.length_take_le 4 bytes)
  have hhigh := ofDigits_lt (n := 4) (fun b hb ↦ hbytes b (List.mem_of_mem_drop hb))
    (show (bytes.drop 4).length ≤ 4 by rw [List.length_drop]; omega)
  have hword0 : wordAt bytes 0 = Nat.ofDigits 256 (bytes.take 4) := rfl
  have hword1 : wordAt bytes 1 = Nat.ofDigits 256 (bytes.drop 4) :=
    congrArg _ (List.take_of_length_le (by rw [List.length_drop]; omega))
  unfold idealWords wordsOf
  rw [hsmall]
  split_ifs with hshort
  · rw [show (bytes.length + 3) / 4 = 1 by omega]
    show _ = [wordAt bytes 0]
    rw [hword0, hsplit]
    congr 1
    omega
  · rw [show (bytes.length + 3) / 4 = 2 by omega]
    show _ = [wordAt bytes 0, wordAt bytes 1]
    rw [hword0, hword1, hsplit]
    congr 1
    · omega
    · congr 1
      omega

/-- A line that is not the last has whole words. -/
theorem RegularLines.cons {bytes : List ℕ} {image : List (List ℕ)}
    (h : RegularLines ((bytes :: image).map List.length)) :
    bytes.length ≤ 8 ∧ RegularLines (image.map List.length) ∧
      (image = [] ∨ ∃ n, bytes.length = 4 * n) := by
  cases image with
  | nil => exact ⟨h, trivial, .inl rfl⟩
  | cons bytes' image =>
    obtain ⟨hlength | hlength, hrest⟩ := h
    · exact ⟨by omega, hrest, .inr ⟨1, hlength⟩⟩
    · exact ⟨by omega, hrest, .inr ⟨2, hlength⟩⟩

/-- Assumes: regular lines. The words of `IdealMem` are those of the image. -/
theorem flatMap_idealWords {image : List (List ℕ)} (hregular : RegularLines (image.map List.length))
    (hne : ∀ bytes ∈ image, bytes ≠ []) (hbytes : ∀ bytes ∈ image, ∀ b ∈ bytes, b < 256) :
    image.flatMap idealWords = wordsOf image.flatten := by
  induction image with
  | nil => rfl
  | cons bytes image ih =>
    obtain ⟨hlength, hrest, hwhole⟩ := hregular.cons
    rw [List.flatMap_cons, List.flatten_cons,
      idealWords_of_le (hne bytes List.mem_cons_self) hlength (hbytes bytes List.mem_cons_self),
      ih hrest (fun b hb ↦ hne b (List.mem_cons_of_mem _ hb))
        fun b hb ↦ hbytes b (List.mem_cons_of_mem _ hb)]
    rcases hwhole with rfl | ⟨n, hn⟩
    · exact (List.append_nil _).trans (congrArg wordsOf (List.append_nil bytes).symm)
    · exact (wordsOf_append bytes hn).symm

/-! ### The mapping -/

theorem foldl_update_of_ne {β : Type*} (key : ℕ → ℕ) (value : ℕ → β) (f : ℕ → β) (n : ℕ) {a : ℕ}
    (h : ∀ i < n, a ≠ key i) :
    (List.range n).foldl (fun f i ↦ Function.update f (key i) (value i)) f a = f a := by
  induction n with
  | zero => rfl
  | succ n ih =>
    rw [List.range_succ, List.foldl_append, List.foldl_cons, List.foldl_nil,
      Function.update_of_ne (h n (Nat.lt_succ_self n)), ih fun i hi ↦ h i (Nat.lt_succ_of_lt hi)]

theorem foldl_update_get {β : Type*} {key : ℕ → ℕ} (hkey : Function.Injective key) (value : ℕ → β)
    (f : ℕ → β) {n i : ℕ} (hi : i < n) :
    (List.range n).foldl (fun f i ↦ Function.update f (key i) (value i)) f (key i) = value i := by
  induction n with
  | zero => exact absurd hi (Nat.not_lt_zero i)
  | succ n ih =>
    rw [List.range_succ, List.foldl_append, List.foldl_cons, List.foldl_nil]
    by_cases heq : i = n
    · rw [heq, Function.update_self]
    · rw [Function.update_of_ne fun h ↦ heq (hkey h)]
      exact ih (by omega)

theorem mapWords_of_lt (mapping : ℕ → Option String) {addr a : ℕ} (data : List ℕ) (h : a < addr) :
    mapWords mapping addr data a = mapping a :=
  foldl_update_of_ne (fun i ↦ addr + 4 * i) _ mapping _ fun i _ ↦ by omega

theorem wordAddress_injective (addr : ℕ) : Function.Injective fun i ↦ addr + 4 * i := fun i j h ↦ by
  have h' : addr + 4 * i = addr + 4 * j := h
  omega

theorem mapWords_get (mapping : ℕ → Option String) (addr : ℕ) {data : List ℕ} {w : ℕ}
    (hw : 4 * w < data.length) :
    mapWords mapping addr data (addr + 4 * w) = some (fmtHex (wordAt data w) 8) :=
  foldl_update_get (wordAddress_injective addr) (fun i ↦ some (fmtHex (wordAt data i) 8)) mapping
    (by omega)

theorem mapLines_of_lt (mapping : ℕ → Option String) {addr a : ℕ} (image : List (List ℕ))
    (h : a < addr) : mapLines mapping addr image a = mapping a := by
  induction image generalizing mapping addr with
  | nil => rfl
  | cons bytes image ih =>
    unfold mapLines
    rw [ih _ (by omega), mapWords_of_lt _ _ h]

/-- Assumes: regular lines. The mapping has the words of the image. -/
theorem mapLines_get (mapping : ℕ → Option String) (addr : ℕ) {image : List (List ℕ)}
    (hregular : RegularLines (image.map List.length)) {w : ℕ} (hw : 4 * w < image.flatten.length) :
    mapLines mapping addr image (addr + 4 * w) = some (fmtHex (wordAt image.flatten w) 8) := by
  induction image generalizing mapping addr w with
  | nil => exact absurd hw (Nat.not_lt_zero _)
  | cons bytes image ih =>
    obtain ⟨-, hrest, rfl | ⟨n, hn⟩⟩ := hregular.cons
    · rw [List.flatten_cons, List.flatten_nil, List.append_nil] at hw ⊢
      exact mapWords_get mapping addr hw
    · rw [List.flatten_cons, List.length_append] at hw
      unfold mapLines
      rw [List.flatten_cons]
      by_cases hfirst : w < n
      · rw [mapLines_of_lt _ _ (by omega), mapWords_get _ _ (by omega),
          wordAt_append_left (by omega)]
      · obtain ⟨v, rfl⟩ := Nat.exists_eq_add_of_le (Nat.le_of_not_lt hfirst)
        rw [wordAt_append bytes hn, Nat.mul_add, ← hn, ← Nat.add_assoc]
        exact ih _ _ hrest (by omega)

end BoomCore.Loadmem

import CodexBridge.Panel.Hashing

/-! # The panel's digest is SHA-256

However a file is cut into slices, the hasher ends in the state the standard's padding and blocks
give.
-/

namespace CodexBridge.Panel

open Library Library.JsNumber
open Library.Sha256 (Octet Word)

/-! ## Words -/

theorem sha256Words_eq : sha256Words = Sha256.constants := rfl

theorem sha256Words_getD (i : Nat) : sha256Words.getD i 0 = Sha256.constants.getD i 0 := by
  rw [sha256Words_eq]

theorem toBits_rightRotate (x : Int) (n : Nat) (hpos : 0 < n) (hn : n < 32) :
    toBits (rightRotate x n) = (toBits x).rotateRight n := by
  have hleft : (32 - n) % 32 = 32 - n := Nat.mod_eq_of_lt (by omega)
  have hright : n % 32 = n := Nat.mod_eq_of_lt hn
  simp only [rightRotate, toBits_bitOr, toBits_ushr, toBits_shl, hleft, hright,
    BitVec.rotateRight_def]

variable (words : List Word)

@[simp] theorem toBits_cell (i : Nat) : toBits (cell words i) = words.getD i 0 := toBits_ofCell _

variable (block : List UInt8)

theorem toBits_byteAt (i : Nat) :
    toBits (byteAt block i) = (block.getD i 0).toBitVec.setWidth 32 := by
  unfold toBits byteAt
  rw [BitVec.ofInt_natCast]
  exact BitVec.ofNat_toNat 32 (block.getD i 0).toBitVec

theorem blockWord_eq (i : Nat) : blockWord block i = ofCell (Sha256.wordAt block i) := by
  have hoffset : i * 4 = 4 * i := Nat.mul_comm i 4
  simp only [blockWord, ushr_zero, toBits_bitOr, toBits_shl, toBits_byteAt, hoffset,
    Sha256.wordAt]
  congr 1
  generalize (block.getD (4 * i) 0).toBitVec = b0
  generalize (block.getD (4 * i + 1) 0).toBitVec = b1
  generalize (block.getD (4 * i + 2) 0).toBitVec = b2
  generalize (block.getD (4 * i + 3) 0).toBitVec = b3
  ext j hj
  simp
  grind

theorem isSum_cell (i : Nat) : IsSum 1 (cell words i) := isSum_ofCell _

theorem isSum_bitXor (x y : Int) : IsSum 1 (bitXor x y) := isSum_toInt _

theorem toBits_mixedWord (index : Nat) :
    toBits (mixedWord words index) =
      Sha256.smallSigma1 (words.getD (index - 2) 0) + words.getD (index - 7) 0 +
        Sha256.smallSigma0 (words.getD (index - 15) 0) + words.getD (index - 16) 0 := by
  unfold mixedWord
  set gamma0 := bitXor (bitXor (rightRotate (cell words (index - 15)) 7)
    (rightRotate (cell words (index - 15)) 18)) (ushr (cell words (index - 15)) 3) with hgamma0
  set gamma1 := bitXor (bitXor (rightRotate (cell words (index - 2)) 17)
    (rightRotate (cell words (index - 2)) 19)) (ushr (cell words (index - 2)) 10) with hgamma1
  have hsigma0 : toBits gamma0 = Sha256.smallSigma0 (words.getD (index - 15) 0) := by
    simp [hgamma0, toBits_rightRotate, Sha256.smallSigma0]
  have hsigma1 : toBits gamma1 = Sha256.smallSigma1 (words.getD (index - 2) 0) := by
    simp [hgamma1, toBits_rightRotate, Sha256.smallSigma1]
  have hword0 : IsSum 1 gamma0 := isSum_bitXor _ _
  have hword1 : IsSum 1 gamma1 := isSum_bitXor _ _
  have hsum := ushr_sum (cell words (index - 16)) [gamma0, cell words (index - 7), gamma1]
    (isSum_cell words _) (by simp [hword0, hword1, isSum_cell]) (by simp)
  simp only [List.foldl_cons, List.foldl_nil, hsigma0, hsigma1, toBits_cell] at hsum
  rw [hsum, toBits_ofCell]
  ac_rfl

@[simp] theorem length_store (i : Nat) (x : Int) : (store words i x).length = words.length := by
  simp [store]

theorem take_store (i : Nat) (x : Int) (hi : i < words.length) :
    (store words i x).take (i + 1) = words.take i ++ [toBits x] := by
  unfold store
  rw [List.take_succ_eq_append_getElem (by simpa using hi), List.take_set_of_le (Nat.le_refl i)]
  simp

theorem storeBlock_spec (words : List Word) (n : Nat) (hn : n ≤ words.length) :
    ((List.range n).foldl (fun words index => store words index (blockWord block index))
        words).take n = (List.range n).map (Sha256.wordAt block) ∧
      ((List.range n).foldl (fun words index => store words index (blockWord block index))
        words).length = words.length := by
  induction n with
  | zero => simp
  | succ n ih =>
    have hprior := ih (by omega)
    simp only [List.range_succ, List.foldl_append, List.foldl_cons, List.foldl_nil,
      List.map_append, List.map_cons, List.map_nil, length_store]
    rw [take_store _ _ _ (by omega), hprior.1, blockWord_eq, toBits_ofCell]
    exact ⟨rfl, hprior.2⟩

theorem storeMixed_spec (words : List Word) (n : Nat)
    (hwords : words.take 16 = (List.range 16).map (Sha256.wordAt block))
    (hn : 16 + n ≤ words.length) :
    (storeMixed words n).take (16 + n) = (List.range n).foldl
        (fun ws _ => ws ++ [Sha256.nextWord ws]) ((List.range 16).map (Sha256.wordAt block)) ∧
      (storeMixed words n).length = words.length := by
  induction n with
  | zero => exact ⟨hwords, rfl⟩
  | succ n ih =>
    have hprior := ih (by omega)
    have hstep : storeMixed words (n + 1) =
        store (storeMixed words n) (16 + n) (mixedWord (storeMixed words n) (16 + n)) := by
      simp [storeMixed, List.range'_concat]
    have hnext : toBits (mixedWord (storeMixed words n) (16 + n)) =
        Sha256.nextWord ((storeMixed words n).take (16 + n)) := by
      have hlength : ((storeMixed words n).take (16 + n)).length = 16 + n := by
        rw [List.length_take]
        omega
      have hread (i : Nat) (hi : i < 16 + n) :
          ((storeMixed words n).take (16 + n)).getD i 0 = (storeMixed words n).getD i 0 := by
        simp [List.getD_eq_getElem?_getD, hi]
      simp only [toBits_mixedWord, Sha256.nextWord, hlength]
      rw [hread _ (by omega), hread _ (by omega), hread _ (by omega), hread _ (by omega)]
    rw [hstep, ← Nat.add_assoc, take_store _ _ _ (by omega), hnext, hprior.1]
    constructor
    · simp [List.range_succ]
    · rw [length_store, hprior.2]

theorem workspace_spec (words : List Word) (hwords : words.length = 64) :
    storeMixed (storeBlock block words) 48 = Sha256.schedule block ∧
      (storeMixed (storeBlock block words) 48).length = 64 := by
  have hblock := storeBlock_spec block words 16 (by omega)
  have hmixed := storeMixed_spec block (storeBlock block words) 48 hblock.1
    (by rw [storeBlock, hblock.2]; omega)
  have hlength : (storeMixed (storeBlock block words) 48).length = 64 := by
    rw [hmixed.2, storeBlock, hblock.2, hwords]
  refine ⟨?_, hlength⟩
  rw [← List.take_of_length_le (Nat.le_of_eq hlength)]
  exact hmixed.1

theorem temp1_eq (index : Nat) {h sigma1 choose : Int} (hh : IsSum 1 h)
    (hsigma1 : IsSum 1 sigma1) (hchoose : IsSum 1 choose) :
    ushr (add (add (add (add h sigma1) choose) (cell sha256Words index)) (cell words index)) 0 =
      ofCell (toBits h + toBits sigma1 + toBits choose + sha256Words.getD index 0 +
        words.getD index 0) := by
  have hsum := ushr_sum h [sigma1, choose, cell sha256Words index, cell words index] hh
    (by simp [hsigma1, hchoose, isSum_cell]) (by simp)
  simp only [List.foldl_cons, List.foldl_nil, toBits_cell] at hsum
  exact hsum

theorem toBits_bigSigma0 (x : Word) :
    toBits (bitXor (bitXor (rightRotate (ofCell x) 2) (rightRotate (ofCell x) 13))
      (rightRotate (ofCell x) 22)) = Sha256.bigSigma0 x := by
  simp [toBits_rightRotate, Sha256.bigSigma0]

theorem toBits_bigSigma1 (x : Word) :
    toBits (bitXor (bitXor (rightRotate (ofCell x) 6) (rightRotate (ofCell x) 11))
      (rightRotate (ofCell x) 25)) = Sha256.bigSigma1 x := by
  simp [toBits_rightRotate, Sha256.bigSigma1]

theorem toBits_ch (x y z : Word) :
    toBits (bitXor (bitAnd (ofCell x) (ofCell y)) (bitAnd (bitNot (ofCell x)) (ofCell z))) =
      Sha256.ch x y z := by
  simp [Sha256.ch]

theorem toBits_maj (x y z : Word) :
    toBits (bitXor (bitXor (bitAnd (ofCell x) (ofCell y)) (bitAnd (ofCell x) (ofCell z)))
      (bitAnd (ofCell y) (ofCell z))) = Sha256.maj x y z := by
  simp [Sha256.maj]

theorem turn_eq (v : Octet Word) (index : Nat) :
    turn words (v.map ofCell) index =
      (Sha256.step v (Sha256.constants.getD index 0) (words.getD index 0)).map ofCell := by
  have htemp1 := temp1_eq words index (isSum_ofCell v.h)
    (isSum_bitXor (bitXor (rightRotate (ofCell v.e) 6) (rightRotate (ofCell v.e) 11))
      (rightRotate (ofCell v.e) 25))
    (isSum_bitXor (bitAnd (ofCell v.e) (ofCell v.f)) (bitAnd (bitNot (ofCell v.e)) (ofCell v.g)))
  have htemp2 := ushr_add
    (isSum_bitXor (bitXor (rightRotate (ofCell v.a) 2) (rightRotate (ofCell v.a) 13))
      (rightRotate (ofCell v.a) 22))
    (isSum_bitXor (bitXor (bitAnd (ofCell v.a) (ofCell v.b)) (bitAnd (ofCell v.a) (ofCell v.c)))
      (bitAnd (ofCell v.b) (ofCell v.c)))
  have hpair (x y : Word) : ushr (add (ofCell x) (ofCell y)) 0 = ofCell (x + y) := by
    rw [ushr_add (isSum_ofCell x) (isSum_ofCell y), toBits_ofCell, toBits_ofCell]
  rw [toBits_bigSigma1, toBits_ch, toBits_ofCell, sha256Words_getD] at htemp1
  rw [toBits_bigSigma0, toBits_maj] at htemp2
  simp only [turn, Octet.map, htemp1, htemp2, hpair, Sha256.step]

theorem turns_eq (v : Octet Word) (indices : List Nat) :
    indices.foldl (turn words) (v.map ofCell) = (indices.foldl (fun v t =>
      Sha256.step v (Sha256.constants.getD t 0) (words.getD t 0)) v).map ofCell := by
  induction indices generalizing v with
  | nil => rfl
  | cons t indices ih => rw [List.foldl_cons, List.foldl_cons, turn_eq, ih]

theorem addCell_ofCell (w x : Word) : addCell w (ofCell x) = x + w := by
  unfold addCell
  rw [ushr_add (isSum_ofCell w) (isSum_ofCell x), toBits_ofCell, toBits_ofCell, toBits_ofCell,
    BitVec.add_comm]

namespace IncrementalSha256

variable (s : IncrementalSha256)

@[simp] theorem compress_workspace (block : List UInt8) :
    (s.compress block).workspace = storeMixed (storeBlock block s.workspace) 48 := by
  simp only [compress]

@[simp] theorem compress_tail (block : List UInt8) : (s.compress block).tail = s.tail := by
  simp only [compress]

@[simp] theorem compress_length (block : List UInt8) : (s.compress block).length = s.length := by
  simp only [compress]

/-- `_compress` is the standard's computation on one block, and moves nothing else. -/
theorem compress_spec (block : List UInt8) (hworkspace : s.workspace.length = 64) :
    (s.compress block).state = Sha256.compress s.state block ∧
      (s.compress block).workspace.length = 64 ∧ (s.compress block).tail = s.tail ∧
      (s.compress block).length = s.length := by
  have hwords := workspace_spec block s.workspace hworkspace
  have hturns := turns_eq (Sha256.schedule block) s.state (List.range 64)
  rw [compress_workspace, compress_tail, compress_length]
  refine ⟨?_, hwords.2, rfl, rfl⟩
  simp only [compress, hwords.1, hturns]
  simp only [Octet.map, addCell_ofCell, Sha256.compress, Sha256.rounds]

/-- The hasher after some blocks: `n` blocks of `bytes` went into the state. -/
structure Absorbs (s : IncrementalSha256) (n : Nat) (bytes : List UInt8)
    (s' : IncrementalSha256) : Prop where
  state : s'.state = Sha256.absorb n s.state bytes
  tail : s'.tail = s.tail
  length : s'.length = s.length
  workspace : s'.workspace.length = 64

theorem Absorbs.cons {s s' : IncrementalSha256} {n : Nat} {bytes : List UInt8}
    (hworkspace : s.workspace.length = 64)
    (h : (s.compress (bytes.take 64)).Absorbs n (bytes.drop 64) s') :
    s.Absorbs (n + 1) bytes s' := by
  have hblock := s.compress_spec (bytes.take 64) hworkspace
  constructor
  · rw [h.state, hblock.1]
    rfl
  · rw [h.tail, hblock.2.2.1]
  · rw [h.length, hblock.2.2.2]
  · exact h.workspace

theorem subarray_eq (bytes : List UInt8) (position : Nat) :
    subarray bytes position (position + 64) = (bytes.drop position).take 64 := by
  unfold subarray
  rw [List.drop_take]
  congr 1
  omega

/-- The loop of `update` takes every whole block there is. -/
theorem compressFrom_spec (bytes : List UInt8) (position : Nat)
    (hworkspace : s.workspace.length = 64) (hposition : position ≤ bytes.length) :
    s.Absorbs ((bytes.length - position) / 64) (bytes.drop position)
        (s.compressFrom bytes position).1 ∧
      (s.compressFrom bytes position).2 = position + 64 * ((bytes.length - position) / 64) := by
  fun_induction compressFrom s bytes position with
  | case1 s position hmore ih =>
    have hcompressed := s.compress_spec (subarray bytes position (position + 64)) hworkspace
    have hrest := ih hcompressed.2.1 hmore
    have hcount : (bytes.length - position) / 64 =
        (bytes.length - (position + 64)) / 64 + 1 := by omega
    have hdrop : (bytes.drop position).drop 64 = bytes.drop (position + 64) := List.drop_drop
    rw [hcount]
    constructor
    · apply Absorbs.cons hworkspace
      rw [hdrop, ← subarray_eq]
      exact hrest.1
    · rw [hrest.2]
      omega
  | case2 s position hmore =>
    have hcount : (bytes.length - position) / 64 = 0 := by omega
    rw [hcount]
    exact ⟨⟨rfl, rfl, rfl, hworkspace⟩, rfl⟩

/-- The loop of `hexDigest` on whole blocks. -/
theorem finish_spec (block : List UInt8) (position : Nat)
    (hworkspace : s.workspace.length = 64) (hposition : position ≤ block.length)
    (hwhole : (block.length - position) % 64 = 0) :
    s.Absorbs ((block.length - position) / 64) (block.drop position) (s.finish block position) := by
  fun_induction finish s block position with
  | case1 s position hmore ih =>
    have hcompressed := s.compress_spec (subarray block position (position + 64)) hworkspace
    have hrest := ih hcompressed.2.1 (by omega) (by omega)
    have hcount : (block.length - position) / 64 =
        (block.length - (position + 64)) / 64 + 1 := by omega
    have hdrop : (block.drop position).drop 64 = block.drop (position + 64) := List.drop_drop
    rw [hcount]
    apply Absorbs.cons hworkspace
    rw [hdrop, ← subarray_eq]
    exact hrest
  | case2 s position hmore =>
    have hcount : (block.length - position) / 64 = 0 := by omega
    rw [hcount]
    exact ⟨rfl, rfl, rfl, hworkspace⟩

/-- The hasher after a message: its whole blocks are in the state, the rest is the tail. -/
structure Holds (s : IncrementalSha256) (message : List UInt8) : Prop where
  state : s.state = Sha256.absorb (message.length / 64) Sha256.initial message
  tail : s.tail = message.drop (64 * (message.length / 64))
  workspace : s.workspace.length = 64

theorem Holds.new : new.Holds [] := ⟨rfl, rfl, rfl⟩

variable {s : IncrementalSha256} {message : List UInt8}

theorem Holds.tail_length (h : s.Holds message) : s.tail.length = message.length % 64 := by
  rw [h.tail, List.length_drop]
  omega

theorem Holds.absorb (h : s.Holds message) (n : Nat) (more : List UInt8) :
    Sha256.absorb n s.state (s.tail ++ more) =
      Sha256.absorb (message.length / 64 + n) Sha256.initial (message ++ more) := by
  rw [Sha256.absorb_add, Sha256.absorb_append _ _ _ _ (Nat.mul_div_le _ _), ← h.state, h.tail,
    List.drop_append_of_le_length (Nat.mul_div_le _ _)]

/-- After whole blocks, `takeIn` adds the bytes from a position on. -/
theorem Holds.takeIn (h : s.Holds message)
    (bytes : List UInt8) (position : Nat) (hwhole : message.length % 64 = 0)
    (hposition : position ≤ bytes.length) :
    (s.takeIn bytes position).Holds (message ++ bytes.drop position) := by
  have hloop := s.compressFrom_spec bytes position h.workspace hposition
  have htail : s.tail = [] := by
    rw [← List.length_eq_zero_iff, h.tail_length, hwhole]
  have hcount : (message ++ bytes.drop position).length / 64 =
      message.length / 64 + (bytes.length - position) / 64 := by
    rw [List.length_append, List.length_drop]
    omega
  have hmultiple : 64 * (message.length / 64) = message.length := by omega
  have hdrop : (message ++ bytes.drop position).drop
      (64 * ((message ++ bytes.drop position).length / 64)) =
      bytes.drop (s.compressFrom bytes position).2 := by
    rw [hcount, Nat.mul_add, hmultiple, List.drop_append, List.drop_drop, hloop.2]
    simp
  have hstate : (s.compressFrom bytes position).1.state = Sha256.absorb
      ((message ++ bytes.drop position).length / 64) Sha256.initial
      (message ++ bytes.drop position) := by
    have hjoin := h.absorb ((bytes.length - position) / 64) (bytes.drop position)
    rw [htail, List.nil_append] at hjoin
    rw [hloop.1.state, hjoin, hcount]
  unfold IncrementalSha256.takeIn
  by_cases hrest : (s.compressFrom bytes position).2 < bytes.length
  · simp only [hrest, if_true]
    exact ⟨hstate, hdrop.symm, hloop.1.workspace⟩
  · simp only [hrest, if_false]
    refine ⟨hstate, ?_, hloop.1.workspace⟩
    rw [hdrop, hloop.1.tail, htail, List.drop_eq_nil_of_le (by omega)]

theorem setBytes_start (source : List UInt8) (n : Nat) :
    setBytes (List.replicate n 0) source 0 = source ++ List.replicate (n - source.length) 0 := by
  simp [setBytes]

theorem setBytes_both (left right : List UInt8) (n : Nat) (h : left.length + right.length = n) :
    setBytes (setBytes (List.replicate n 0) left 0) right left.length = left ++ right := by
  have hrest : n - left.length - right.length = 0 := by omega
  rw [setBytes_start]
  simp [setBytes, List.drop_append, hrest]

theorem subarray_zero (bytes : List UInt8) (n : Nat) : subarray bytes 0 n = bytes.take n := by
  simp [subarray]

theorem Holds.fill (h : s.Holds message)
    (block : List UInt8) (hfull : s.tail.length + block.length = 64) :
    ({ s.compress (s.tail ++ block) with tail := [] } : IncrementalSha256).Holds
      (message ++ block) := by
  have htail := h.tail_length
  have hcount : (message ++ block).length / 64 = message.length / 64 + 1 := by
    rw [List.length_append]
    omega
  have hend : 64 * (message.length / 64 + 1) = (message ++ block).length := by
    rw [List.length_append]
    omega
  have hblock : (s.tail ++ block).length = 64 := by
    rw [List.length_append]
    exact hfull
  have hcompressed := s.compress_spec (s.tail ++ block) h.workspace
  have hstate : (s.compress (s.tail ++ block)).state =
      Sha256.absorb ((message ++ block).length / 64) Sha256.initial (message ++ block) := by
    rw [hcompressed.1, ← Sha256.absorb_one _ _ hblock, h.absorb 1 block, hcount]
  have hnothing : (message ++ block).drop (64 * ((message ++ block).length / 64)) = [] := by
    rw [hcount, hend, List.drop_length]
  have hworkspace := hcompressed.2.1
  -- the 64 words are not to be computed
  generalize s.compress (s.tail ++ block) = after at hstate hworkspace ⊢
  exact ⟨hstate, hnothing.symm, hworkspace⟩

/-- `update` appends its bytes to the message, wherever the blocks end. -/
theorem Holds.update (h : s.Holds message)
    (bytes : List UInt8) : (s.update bytes).Holds (message ++ bytes) := by
  have hsame : ({ s with length := add s.length bytes.length } : IncrementalSha256).Holds message :=
    ⟨h.state, h.tail, h.workspace⟩
  have htail := h.tail_length
  unfold IncrementalSha256.update
  by_cases hempty : s.tail.length = 0
  · simp only [hempty, ne_eq, not_true_eq_false, if_false]
    exact hsame.takeIn bytes 0 (by omega) (Nat.zero_le _)
  simp only [hempty, ne_eq, not_false_eq_true, if_true]
  by_cases hshort : bytes.length < 64 - s.tail.length
  · simp only [hshort, if_true]
    have hcount : (message ++ bytes).length / 64 = message.length / 64 := by
      rw [List.length_append]
      omega
    refine ⟨?_, ?_, h.workspace⟩
    · rw [hcount, Sha256.absorb_append _ _ _ _ (Nat.mul_div_le _ _)]
      exact h.state
    · rw [hcount, List.drop_append_of_le_length (Nat.mul_div_le _ _), ← h.tail]
      exact setBytes_both s.tail bytes _ rfl
  · simp only [hshort, if_false]
    have hfirst : (bytes.take (64 - s.tail.length)).length = 64 - s.tail.length := by
      rw [List.length_take]
      omega
    rw [subarray_zero, setBytes_both s.tail _ 64 (by omega)]
    have hfilled := hsame.fill (bytes.take (64 - s.tail.length))
      (by simp only [hfirst]; omega)
    have hlast := hfilled.takeIn bytes (64 - s.tail.length)
      (by rw [List.length_append, hfirst]; omega) (by omega)
    rw [List.append_assoc, List.take_append_drop] at hlast
    exact hlast

theorem lengthByte_eq (n index : Nat) :
    lengthByte ((n : Int) * 8) index = UInt8.ofNat (8 * n / 256 ^ index % 256) := by
  have hpow : 2 ^ (index * 8) = 256 ^ index := by
    rw [Nat.mul_comm, Nat.pow_mul]
  have hbits : (n : Int) * 8 = ((8 * n : Nat) : Int) := by
    push_cast
    exact Int.mul_comm _ _
  unfold lengthByte
  rw [hbits, Int.shiftRight_eq_div_pow, hpow]
  congr 1

/-- The loop of `hexDigest` writes the last bytes from the end on. -/
theorem setLength_eq (head : List UInt8) (n m k : Nat) (hk : k ≤ m) :
    (List.range k).foldl (fun block index =>
        block.set (block.length - 1 - index) (lengthByte ((n : Int) * 8) index))
      (head ++ List.replicate m 0) =
      head ++ List.replicate (m - k) 0 ++ Sha256.bigEndian k (8 * n) := by
  induction k with
  | zero => simp [Sha256.bigEndian]
  | succ k ih =>
    have hzeros : List.replicate (m - k) (0 : UInt8) = List.replicate (m - (k + 1)) 0 ++ [0] := by
      have hcount : m - k = m - (k + 1) + 1 := by omega
      rw [hcount, List.replicate_succ']
    have hindex :
        (head ++ List.replicate (m - k) 0 ++ Sha256.bigEndian k (8 * n)).length - 1 - k =
        (head ++ List.replicate (m - (k + 1)) (0 : UInt8)).length := by
      simp only [List.length_append, List.length_replicate, Sha256.length_bigEndian]
      omega
    rw [List.range_succ, List.foldl_append, ih (by omega), List.foldl_cons, List.foldl_nil,
      hindex, lengthByte_eq, hzeros]
    simp [Sha256.bigEndian]

theorem Holds.finalBlock (h : s.Holds message) (hlength : s.length = message.length) :
    Sha256.pad message = message.take (64 * (message.length / 64)) ++ s.finalBlock := by
  have htail := h.tail_length
  have hmark (n : Nat) (hn : s.tail.length < n) :
      (s.tail ++ List.replicate (n - s.tail.length) 0).set s.tail.length (0x80 : UInt8) =
        s.tail ++ [0x80] ++ List.replicate (n - s.tail.length - 1) 0 := by
    have hcount : n - s.tail.length = n - s.tail.length - 1 + 1 := by omega
    rw [hcount, List.replicate_succ]
    simp
  have hblock (n : Nat) (hn : s.tail.length + 8 < n) (hzeros : n - s.tail.length - 1 - 8 =
      (119 - message.length % 64) % 64) :
      (List.range 8).foldl (fun block index =>
          block.set (block.length - 1 - index) (lengthByte (s.length * 8) index))
        ((setBytes (List.replicate n 0) s.tail 0).set s.tail.length 0x80) =
        s.tail ++ [0x80] ++ List.replicate ((119 - message.length % 64) % 64) 0 ++
          Sha256.bigEndian 8 (8 * message.length) := by
    rw [setBytes_start, hmark n (by omega), hlength, setLength_eq _ _ _ _ (by omega), hzeros]
  have hjoin : message.take (64 * (message.length / 64)) ++ s.tail = message := by
    rw [h.tail, List.take_append_drop]
  unfold IncrementalSha256.finalBlock
  by_cases hshort : s.tail.length < 56
  · rw [if_pos hshort, hblock 64 (by omega) (by omega)]
    simp only [← List.append_assoc, hjoin, Sha256.pad]
  · rw [if_neg hshort, hblock 128 (by omega) (by omega)]
    simp only [← List.append_assoc, hjoin, Sha256.pad]

end IncrementalSha256

/-- Padding with zeros on the left gives the digits at every place. -/
theorem leftpad_toDigits (n k : Nat) (h : n < 16 ^ (k + 1)) :
    (Nat.toDigits 16 n).leftpad (k + 1) '0' =
      (List.range (k + 1)).map fun i => Nat.digitChar (n / 16 ^ (k - i) % 16) := by
  induction k generalizing n with
  | zero =>
    have hn : n < 16 := by simpa using h
    rw [Nat.toDigits_of_lt_base hn]
    simp [List.leftpad, Nat.mod_eq_of_lt hn]
  | succ k ih =>
    have hquotient : n / 16 < 16 ^ (k + 1) := by
      rw [Nat.pow_succ] at h
      omega
    have hplaces : (List.range (k + 1)).map (fun i => Nat.digitChar (n / 16 ^ (k + 1 - i) % 16)) =
        (List.range (k + 1)).map fun i => Nat.digitChar (n / 16 / 16 ^ (k - i) % 16) := by
      apply List.map_congr_left
      intro i hi
      have hshift : k + 1 - i = k - i + 1 := by
        have hlt := List.mem_range.mp hi
        omega
      rw [hshift, Nat.pow_succ', Nat.div_div_eq_div_mul]
    have hlast : (List.range (k + 1 + 1)).map
        (fun i => Nat.digitChar (n / 16 ^ (k + 1 - i) % 16)) =
        ((Nat.toDigits 16 (n / 16)).leftpad (k + 1) '0') ++ [Nat.digitChar (n % 16)] := by
      rw [List.range_succ, List.map_append, hplaces, ih _ hquotient]
      simp
    rw [hlast]
    by_cases hn : n < 16
    · rw [Nat.toDigits_of_lt_base hn, Nat.div_eq_of_lt hn, Nat.mod_eq_of_lt hn]
      simp [List.leftpad, List.replicate_succ']
    · rw [Nat.toDigits_of_base_le (by omega) (by omega)]
      simp [List.leftpad]

theorem hexCell_eq (w : Word) : IncrementalSha256.hexCell w = Sha256.hexWord w :=
  leftpad_toDigits w.toNat 7 w.isLt

namespace IncrementalSha256

/-- `hexDigest` after a message is the digest of the standard. -/
theorem Holds.hexDigest {s : IncrementalSha256} {message : List UInt8} (h : s.Holds message)
    (hlength : s.length = message.length) :
    s.hexDigest = Sha256.hex (Sha256.digest message) := by
  have hpad := h.finalBlock hlength
  have htake : (message.take (64 * (message.length / 64))).length = 64 * (message.length / 64) := by
    rw [List.length_take]
    omega
  have hpadded : (Sha256.pad message).length =
      64 * (message.length / 64) + s.finalBlock.length := by
    rw [hpad, List.length_append, htake]
  have hwhole := Sha256.length_pad message
  have hfinish := s.finish_spec s.finalBlock 0 h.workspace (Nat.zero_le _) (by omega)
  have hdigest : Sha256.digest message = (s.finish s.finalBlock 0).state := by
    have hcount : (Sha256.pad message).length / 64 =
        message.length / 64 + (s.finalBlock.length - 0) / 64 := by omega
    have hblocks : Sha256.absorb (message.length / 64) Sha256.initial message =
        Sha256.absorb (message.length / 64) Sha256.initial
          (message.take (64 * (message.length / 64))) := by
      have hread := Sha256.absorb_append (message.length / 64) Sha256.initial
        (message.take (64 * (message.length / 64))) (message.drop (64 * (message.length / 64)))
        (Nat.le_of_eq htake.symm)
      rwa [List.take_append_drop] at hread
    have hrest : (Sha256.pad message).drop (64 * (message.length / 64)) = s.finalBlock := by
      rw [hpad, List.drop_left' htake]
    rw [Sha256.digest, hcount, Sha256.absorb_add, hrest, hfinish.state, h.state, hblocks, hpad,
      Sha256.absorb_append _ _ _ _ (Nat.le_of_eq htake.symm), List.drop_zero]
  have hcells : hexCell = Sha256.hexWord := funext hexCell_eq
  rw [IncrementalSha256.hexDigest, Sha256.hex, hdigest, hcells]

theorem takeIn_length (s : IncrementalSha256) (bytes : List UInt8) (position : Nat)
    (hworkspace : s.workspace.length = 64) (hposition : position ≤ bytes.length) :
    (s.takeIn bytes position).length = s.length := by
  have hloop := (s.compressFrom_spec bytes position hworkspace hposition).1.length
  unfold IncrementalSha256.takeIn
  by_cases hrest : (s.compressFrom bytes position).2 < bytes.length
  · simp only [hrest, if_true]
    exact hloop
  · simp only [hrest, if_false]
    exact hloop

theorem length_update (s : IncrementalSha256) (bytes : List UInt8)
    (hworkspace : s.workspace.length = 64) :
    (s.update bytes).length = add s.length bytes.length := by
  unfold IncrementalSha256.update
  by_cases hempty : s.tail.length = 0
  · simp only [hempty, ne_eq, not_true_eq_false, if_false]
    exact takeIn_length _ bytes 0 hworkspace (Nat.zero_le _)
  simp only [hempty, ne_eq, not_false_eq_true, if_true]
  by_cases hshort : bytes.length < 64 - s.tail.length
  · simp only [hshort, if_true]
  simp only [hshort, if_false]
  have hcompressed := compress_spec { s with length := add s.length bytes.length }
    (setBytes (setBytes (List.replicate 64 0) s.tail 0)
      (subarray bytes 0 (64 - s.tail.length)) s.tail.length) hworkspace
  generalize compress { s with length := add s.length bytes.length } _ = after at hcompressed ⊢
  have hposition : 64 - s.tail.length ≤ bytes.length := by omega
  have hrest := takeIn_length { after with tail := [] } bytes _ hcompressed.2.1 hposition
  exact hrest.trans hcompressed.2.2.2

/-- Every call appends to the message, and the number of bytes is exact below `2 ^ 53`. -/
theorem Holds.step {s : IncrementalSha256} {message : List UInt8} (h : s.Holds message)
    (hlength : s.length = message.length) (bytes : List UInt8)
    (hsmall : (message ++ bytes).length < 2 ^ 53) :
    (s.update bytes).Holds (message ++ bytes) ∧
      (s.update bytes).length = (message ++ bytes).length := by
  refine ⟨h.update bytes, ?_⟩
  rw [List.length_append] at hsmall ⊢
  rw [length_update s bytes h.workspace, hlength, add_of_small (by omega)]
  push_cast
  rfl

theorem Holds.updates {s : IncrementalSha256} {message : List UInt8} (h : s.Holds message)
    (hlength : s.length = message.length) (parts : List (List UInt8))
    (hsmall : (message ++ parts.flatten).length < 2 ^ 53) :
    (parts.foldl IncrementalSha256.update s).Holds (message ++ parts.flatten) ∧
      (parts.foldl IncrementalSha256.update s).length = (message ++ parts.flatten).length := by
  induction parts generalizing s message with
  | nil => simpa using ⟨h, hlength⟩
  | cons bytes parts ih =>
    have hflat : message ++ (bytes :: parts).flatten = message ++ bytes ++ parts.flatten := by
      simp
    rw [hflat] at hsmall ⊢
    have hfirst : (message ++ bytes).length < 2 ^ 53 := by
      rw [List.length_append] at hsmall
      omega
    have hstep := h.step hlength bytes hfirst
    exact ih hstep.1 hstep.2 hsmall

end IncrementalSha256

theorem hashFrom_spec (file : List UInt8) (size : Nat) (hsize : 0 < size)
    (failure : Nat → Option HashFailure) (hasher : IncrementalSha256) (offset : Nat)
    (hsmall : file.length < 2 ^ 53) (hholds : hasher.Holds (file.take offset))
    (hlength : hasher.length = (file.take offset).length) :
    (∀ after, hashFrom file size hsize failure hasher offset = .ok after →
      after.Holds file ∧ after.length = file.length) ∧
    ((∀ position, failure position = none) →
      ∃ after, hashFrom file size hsize failure hasher offset = .ok after) := by
  fun_induction hashFrom file size hsize failure hasher offset with
  | case1 hasher offset hmore e hfails =>
    constructor
    · intro after hafter
      cases hafter
    · intro hnever
      rw [hnever offset] at hfails
      cases hfails
  | case2 hasher offset hmore hreads ih =>
    have hslice : file.take offset ++ subarray file offset (min file.length (offset + size)) =
        file.take (offset + size) := by
      have htake : file.take (min file.length (offset + size)) = file.take (offset + size) := by
        rw [← List.take_take]
        apply List.take_of_length_le
        rw [List.length_take]
        exact Nat.min_le_right _ _
      have hprior : (file.take (offset + size)).take offset = file.take offset := by
        rw [List.take_take, Nat.min_eq_left (Nat.le_add_right offset size)]
      rw [subarray, htake, ← hprior, List.take_append_drop]
    have hbound : (file.take (offset + size)).length < 2 ^ 53 := by
      rw [List.length_take]
      omega
    have hstep := hholds.step hlength (subarray file offset (min file.length (offset + size)))
      (by rw [hslice]; exact hbound)
    rw [hslice] at hstep
    exact ih hstep.1 hstep.2
  | case3 hasher offset hmore =>
    rw [List.take_of_length_le (by omega)] at hholds hlength
    constructor
    · intro after hafter
      cases hafter
      exact ⟨hholds, hlength⟩
    · intro hnever
      exact ⟨hasher, rfl⟩

/-- Fewer than `2 ^ 53` bytes have the digest of the standard, in whatever parts `update` gets
them, and so does a file at every chunk size `sha256File` takes. -/
theorem digest_incremental :
    (∀ parts : List (List UInt8), parts.flatten.length < 2 ^ 53 →
      (parts.foldl IncrementalSha256.update IncrementalSha256.new).hexDigest =
        Sha256.hex (Sha256.digest parts.flatten)) ∧
    ∀ (file : List UInt8) (chunkSize : Int), file.length < 2 ^ 53 →
      (∀ failure hexDigest, sha256File file (some chunkSize) failure = .ok hexDigest →
        hexDigest = Sha256.hex (Sha256.digest file)) ∧
      (1 ≤ chunkSize → chunkSize ≤ uploadChunkBytes →
        sha256File file (some chunkSize) (fun _ => none) =
          .ok (Sha256.hex (Sha256.digest file))) := by
  have hnew : IncrementalSha256.new.length = ([] : List UInt8).length := rfl
  constructor
  · intro parts hsmall
    have hrun := IncrementalSha256.Holds.new.updates hnew parts (by simpa using hsmall)
    exact hrun.1.hexDigest hrun.2
  · intro file chunkSize hsmall
    have hfile (failure : Nat → Option HashFailure) (hsize : 0 < chunkSize.toNat) :=
      hashFrom_spec file chunkSize.toNat hsize failure IncrementalSha256.new 0 hsmall
        IncrementalSha256.Holds.new hnew
    constructor
    · intro failure hexDigest hdone
      by_cases hrange : chunkSize < 1 ∨ chunkSize > uploadChunkBytes
      · simp [sha256File, hrange] at hdone
      simp only [sha256File, hrange, dite_false] at hdone
      cases hloop : hashFrom file chunkSize.toNat (by omega) failure IncrementalSha256.new 0 with
      | error e => simp [hloop, Except.map] at hdone
      | ok after =>
        have hafter := (hfile failure (by omega)).1 after hloop
        rw [hloop] at hdone
        rw [← hafter.1.hexDigest hafter.2]
        exact (Except.ok.inj hdone).symm
    · intro hlow hhigh
      have hrange : ¬ (chunkSize < 1 ∨ chunkSize > uploadChunkBytes) := by omega
      obtain ⟨after, hloop⟩ := (hfile (fun _ => none) (by omega)).2 fun _ => rfl
      have hafter := (hfile (fun _ => none) (by omega)).1 after hloop
      simp only [sha256File, hrange, dite_false, hloop, Except.map]
      rw [hafter.1.hexDigest hafter.2]

/-- The three bytes of `abc`, with an empty part, and in slices of two. -/
theorem digest_incremental_abc :
    ([[0x61], [], [0x62, 0x63]].foldl IncrementalSha256.update IncrementalSha256.new).hexDigest =
        "ba7816bf8f01cfea414140de5dae2223b00361a396177a9cb410ff61f20015ad" ∧
      sha256File [0x61, 0x62, 0x63] (some 2) (fun _ => none) =
        .ok "ba7816bf8f01cfea414140de5dae2223b00361a396177a9cb410ff61f20015ad" := by
  have hdigest : Sha256.hex (Sha256.digest [0x61, 0x62, 0x63]) =
      "ba7816bf8f01cfea414140de5dae2223b00361a396177a9cb410ff61f20015ad" := by decide +kernel
  rw [← hdigest]
  exact ⟨digest_incremental.1 [[0x61], [], [0x62, 0x63]] (by decide),
    (digest_incremental.2 [0x61, 0x62, 0x63] 2 (by decide)).2 (by decide) (by decide)⟩

end CodexBridge.Panel

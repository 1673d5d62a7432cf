import Pview.Hash.SipHash

/-!
# What the hash computes

The input is padded to whole words, the words are absorbed one after the other,
and the digest is read off the state.  The code does this for every input
without leaving a buffer.
-/

namespace Pview.Hash

open Foundation

def absorb (s : SipState) (m : Word) : SipState :=
  let s := sipRounds cROUNDS { s with v3 := s.v3 ^^^ m }
  { s with v0 := s.v0 ^^^ m }

/-- Zeros up to a whole number of words, with the length modulo 256 as the last
byte. -/
def padded (bytes : List Byte) : List Byte :=
  bytes ++ List.replicate (7 - bytes.length % 8) 0#8 ++
    [BitVec.ofNat 8 bytes.length]

def messageWords (bytes : List Byte) : List Word :=
  leWords (bytes.length / 8 + 1) (padded bytes)

def initial (k0 k1 : Word) (outlen : Nat) : SipState :=
  let s : SipState :=
    { v0 := 0x736f6d6570736575 ^^^ k0
      v1 := 0x646f72616e646f6d ^^^ k1
      v2 := 0x6c7967656e657261 ^^^ k0
      v3 := 0x7465646279746573 ^^^ k1 }
  if outlen = 16 then { s with v1 := s.v1 ^^^ 0xee } else s

def absorbed (k : List Byte) (outlen : Nat) (bytes : List Byte) : SipState :=
  (messageWords bytes).foldl absorb
    (initial (leWord (k.take 8)) (leWord ((k.drop 8).take 8)) outlen)

def SipState.fold (s : SipState) : Word := s.v0 ^^^ s.v1 ^^^ s.v2 ^^^ s.v3

def firstOutput (s : SipState) (outlen : Nat) : SipState :=
  let s := if outlen = 16 then { s with v2 := s.v2 ^^^ 0xee }
    else { s with v2 := s.v2 ^^^ 0xff }
  sipRounds dROUNDS s

def secondOutput (s : SipState) : SipState :=
  sipRounds dROUNDS { s with v1 := s.v1 ^^^ 0xdd }

def squeeze (s : SipState) (outlen : Nat) : List Byte :=
  leBytes 8 (firstOutput s outlen).fold ++
    if outlen = 8 then []
    else leBytes 8 (secondOutput (firstOutput s outlen)).fold

def digest (k : List Byte) (outlen : Nat) (bytes : List Byte) : List Byte :=
  squeeze (absorbed k outlen bytes) outlen

/-! ## The buffers -/

theorem u8to64Le_eq {buffer : List Byte} {p : Nat}
    (h : p + 8 ≤ buffer.length) :
    u8to64Le buffer p = some (leWord ((buffer.drop p).take 8)) := by
  have hget : ∀ i, i < 8 → buffer[p + i]? = (buffer.drop p)[i]? :=
    fun i _ => List.getElem?_drop.symm
  have hlen : 8 ≤ (buffer.drop p).length := by
    rw [List.length_drop]; omega
  have h0 : buffer[p]? = (buffer.drop p)[0]? := hget 0 (by omega)
  unfold u8to64Le
  rw [h0, hget 1 (by omega), hget 2 (by omega), hget 3 (by omega),
    hget 4 (by omega), hget 5 (by omega), hget 6 (by omega),
    hget 7 (by omega)]
  generalize buffer.drop p = bytes at hlen
  match bytes, hlen with
  | b0 :: b1 :: b2 :: b3 :: b4 :: b5 :: b6 :: b7 :: rest, _ =>
    simp [leWord, BitVec.shiftLeft_or_distrib, ← BitVec.shiftLeft_add,
      BitVec.or_assoc]

theorem u8to64Le_leBytes (w : Word) : u8to64Le (leBytes 8 w) 0 = some w := by
  rw [u8to64Le_eq (by simp), List.drop_zero,
    List.take_of_length_le (by simp), leWord_leBytes]

private theorem u32to8Le_append (front back : List Byte) (o0 o1 o2 o3 : Byte)
    (v : BitVec 32) :
    u32to8Le (front ++ o0 :: o1 :: o2 :: o3 :: back) front.length v =
      some (front ++ v.setWidth 8 :: (v >>> 8).setWidth 8 ::
        (v >>> 16).setWidth 8 :: (v >>> 24).setWidth 8 :: back) := by
  simp [u32to8Le, writeByte]

private theorem setWidth_low (v : Word) {i : Nat} (h : i + 8 ≤ 32) :
    (v.setWidth 32 >>> i).setWidth 8 = (v >>> i).setWidth 8 := by
  ext j hj
  have hij : i + j < 32 := by omega
  simp [hij]

private theorem setWidth_high (v : Word) {i : Nat} (h : i + 8 ≤ 32) :
    ((v >>> 32).setWidth 32 >>> i).setWidth 8 =
      (v >>> (32 + i)).setWidth 8 := by
  ext j hj
  have hij : i + j < 32 := by omega
  simp [hij, Nat.add_assoc]

theorem u64to8Le_eq {buffer : List Byte} {p : Nat} (v : Word)
    (h : p + 8 ≤ buffer.length) :
    u64to8Le buffer p v =
      some (buffer.take p ++ leBytes 8 v ++ buffer.drop (p + 8)) := by
  have hlen : 8 ≤ (buffer.drop p).length := by
    rw [List.length_drop]; omega
  have hfront : (buffer.take p).length = p := by
    rw [List.length_take]; omega
  have hdrop : buffer.drop (p + 8) = (buffer.drop p).drop 8 := by
    rw [List.drop_drop]
  rw [hdrop]
  conv => enter [1, 1]; rw [← List.take_append_drop p buffer]
  generalize buffer.take p = front at *
  generalize buffer.drop p = bytes at hlen
  subst hfront
  match bytes, hlen with
  | o0 :: o1 :: o2 :: o3 :: o4 :: o5 :: o6 :: o7 :: rest, _ =>
    unfold u64to8Le
    rw [u32to8Le_append, Option.bind_eq_bind, Option.bind_some]
    have hhigh := u32to8Le_append
      (front ++ [v.setWidth 8, (v >>> 8).setWidth 8, (v >>> 16).setWidth 8,
        (v >>> 24).setWidth 8]) rest o4 o5 o6 o7 ((v >>> 32).setWidth 32)
    rw [List.length_append, List.append_assoc, List.append_assoc] at hhigh
    rw [setWidth_low v (by omega), setWidth_low v (by omega),
      setWidth_low v (by omega),
      BitVec.setWidth_setWidth_of_le v (by omega : 8 ≤ 32)]
    refine hhigh.trans ?_
    rw [setWidth_high v (by omega), setWidth_high v (by omega),
      setWidth_high v (by omega),
      BitVec.setWidth_setWidth_of_le (v >>> 32) (by omega : 8 ≤ 32)]
    simp [leBytes, ← BitVec.shiftRight_add]

/-! ## The input -/

theorem blockLoop_eq (fuel n : Nat) (input : List Byte) (pos : Nat)
    (s : SipState) (hfuel : n < fuel) (hend : pos + 8 * n ≤ input.length) :
    blockLoop fuel input pos (pos + 8 * n) s =
      some (pos + 8 * n, (leWords n (input.drop pos)).foldl absorb s) := by
  induction n generalizing fuel pos s with
  | zero =>
      obtain ⟨fuel, rfl⟩ := Nat.exists_eq_add_of_lt hfuel
      simp [blockLoop, leWords]
  | succ n ih =>
      obtain ⟨fuel, rfl⟩ := Nat.exists_eq_add_of_lt hfuel
      have hne : pos ≠ pos + 8 * (n + 1) := by omega
      have hstop : pos + 8 * (n + 1) = pos + 8 + 8 * n := by omega
      rw [blockLoop, if_pos hne, u8to64Le_eq (by omega), hstop, leWords,
        List.drop_drop, List.foldl_cons]
      exact ih _ _ _ (by omega) (by omega)

theorem switchLeft_eq (input : List Byte) (pos left : Nat) (b : Word)
    (h : pos + left ≤ input.length) :
    switchLeft input pos left b =
      some (b ||| leWord ((input.drop pos).take left)) := by
  induction left generalizing b with
  | zero => simp [switchLeft, leWord]
  | succ i ih =>
      have hget : input[pos + i]? = some input[pos + i] :=
        List.getElem?_eq_getElem (by omega)
      have hlen : ((input.drop pos).take i).length = i := by
        simp
        omega
      have hlast : (input.drop pos).take (i + 1) =
          (input.drop pos).take i ++ [input[pos + i]] := by
        rw [List.take_add_one, List.getElem?_drop, hget, Option.toList_some]
      rw [switchLeft, hget, Option.bind_eq_bind, Option.bind_some,
        ih _ (by omega), hlast, leWord_append, hlen]
      simp only [leWord]
      ac_rfl

theorem length_padded (bytes : List Byte) :
    (padded bytes).length = 8 * (bytes.length / 8 + 1) := by
  simp [padded]
  omega

private theorem last_byte (n : Nat) :
    leWord [BitVec.ofNat 8 n] <<< 56 = BitVec.ofNat 64 n <<< 56 := by
  apply BitVec.eq_of_getLsbD_eq
  intro i hi
  by_cases hlow : i < 56
  · simp [hlow]
  · have h8 : i - 56 < 8 := by omega
    have h64 : i - 56 < 64 := by omega
    rw [leWord, leWord, BitVec.getLsbD_shiftLeft, BitVec.getLsbD_shiftLeft,
      BitVec.getLsbD_ofNat]
    have hbit : (BitVec.ofNat 8 n).getLsbD (i - 56) = n.testBit (i - 56) := by
      rw [BitVec.getLsbD_ofNat, decide_eq_true h8, Bool.true_and]
    rw [BitVec.getLsbD_eq_getElem h8] at hbit
    simp [hlow, hi, h8, h64, hbit]

theorem messageWords_eq (bytes : List Byte) :
    messageWords bytes = leWords (bytes.length / 8) bytes ++
      [BitVec.ofNat 64 bytes.length <<< 56 |||
        leWord (bytes.drop (8 * (bytes.length / 8)))] := by
  have hsplit := List.take_append_drop (8 * (bytes.length / 8)) bytes
  have htake : (bytes.take (8 * (bytes.length / 8))).length =
      8 * (bytes.length / 8) := by
    simp
    omega
  have hrest : (bytes.drop (8 * (bytes.length / 8))).length =
      bytes.length % 8 := by
    simp
    omega
  have hpadded : padded bytes = bytes.take (8 * (bytes.length / 8)) ++
      (bytes.drop (8 * (bytes.length / 8)) ++
        (List.replicate (7 - bytes.length % 8) 0#8 ++
          [BitVec.ofNat 8 bytes.length])) := by
    rw [← List.append_assoc, hsplit, ← List.append_assoc]
    rfl
  have hwords : leWords (bytes.length / 8) bytes =
      leWords (bytes.length / 8) (bytes.take (8 * (bytes.length / 8))) :=
    (leWords_take bytes (Nat.le_refl _)).symm
  have h56 : 8 * (7 - bytes.length % 8) + 8 * (bytes.length % 8) = 56 := by
    omega
  rw [messageWords, hpadded, leWords_append _ _ htake, hwords]
  congr 1
  rw [leWords, leWords, List.take_of_length_le (by simp; omega),
    leWord_append, leWord_append, leWord_replicate_zero, hrest,
    List.length_replicate, BitVec.zero_or, ← BitVec.shiftLeft_add, h56,
    last_byte, BitVec.or_comm]

theorem and_seven (n : Nat) : n &&& 7 = n % 8 :=
  Nat.and_two_pow_sub_one_eq_mod n 3

/-! ## The digest -/

private def writeDigest (s : SipState) (out : List Byte) (outlen : Nat) :
    Option (Int × List Byte) := do
  let s := firstOutput s outlen
  let out ← u64to8Le out 0 s.fold
  if outlen = 8 then
    return (0, out)
  let out ← u64to8Le out 8 (secondOutput s).fold
  return (0, out)

private theorem siphash_phases (fuel : Nat) (input : List Byte) (inlen : Nat)
    (k out : List Byte) (outlen : Nat) :
    siphash fuel input inlen k out outlen = (do
      guard (outlen = 8 ∨ outlen = 16)
      let k0 ← u8to64Le k 0
      let k1 ← u8to64Le k 8
      let (pos, s) ← blockLoop fuel input 0 (inlen - inlen % 8)
        (initial k0 k1 outlen)
      let b ← switchLeft input pos (inlen &&& 7)
        (BitVec.ofNat 64 inlen <<< 56)
      writeDigest (absorb s b) out outlen) :=
  rfl

private theorem writeDigest_eq (s : SipState) {out : List Byte} {outlen : Nat}
    (hlen : outlen = 8 ∨ outlen = 16) (hout : outlen ≤ out.length) :
    writeDigest s out outlen =
      some (0, squeeze s outlen ++ out.drop outlen) := by
  rw [writeDigest, u64to8Le_eq _ (by omega : 0 + 8 ≤ out.length)]
  rcases hlen with rfl | rfl
  · simp [squeeze]
  · have hfilled : 8 + 8 ≤
        (leBytes 8 (firstOutput s 16).fold ++ out.drop 8).length := by
      simp
      omega
    simp [u64to8Le_eq _ hfilled, squeeze, List.drop_append]

private theorem siphash_absorbs {fuel : Nat} {input : List Byte} {inlen : Nat}
    {k : List Byte} {outlen : Nat} (out : List Byte)
    (hin : inlen ≤ input.length) (hk : 16 ≤ k.length)
    (hlen : outlen = 8 ∨ outlen = 16) (hfuel : inlen / 8 < fuel) :
    siphash fuel input inlen k out outlen =
      writeDigest (absorbed k outlen (input.take inlen)) out outlen := by
  have hstop : inlen - inlen % 8 = 0 + 8 * (inlen / 8) := by omega
  have hword0 : u8to64Le k 0 = some (leWord (k.take 8)) :=
    u8to64Le_eq (by omega)
  have hword1 : u8to64Le k 8 = some (leWord ((k.drop 8).take 8)) :=
    u8to64Le_eq (by omega)
  have hwords : messageWords (input.take inlen) =
      leWords (inlen / 8) input ++
        [BitVec.ofNat 64 inlen <<< 56 |||
          leWord ((input.drop (8 * (inlen / 8))).take (inlen % 8))] := by
    have hmod : inlen - 8 * (inlen / 8) = inlen % 8 := by omega
    rw [messageWords_eq, List.length_take_of_le hin, List.drop_take, hmod,
      leWords_take input (by omega)]
  have habsorbed : absorbed k outlen (input.take inlen) =
      absorb ((leWords (inlen / 8) (input.drop 0)).foldl absorb
        (initial (leWord (k.take 8)) (leWord ((k.drop 8).take 8)) outlen))
        (BitVec.ofNat 64 inlen <<< 56 |||
          leWord ((input.drop (0 + 8 * (inlen / 8))).take (inlen % 8))) := by
    rw [absorbed, hwords, List.foldl_append, List.foldl_cons, List.foldl_nil,
      List.drop_zero, Nat.zero_add]
  have hloop := fun s => blockLoop_eq fuel (inlen / 8) input 0 s hfuel (by omega)
  have htail := fun b => switchLeft_eq input (0 + 8 * (inlen / 8)) (inlen % 8)
    b (by omega)
  have hguard : (guard (outlen = 8 ∨ outlen = 16) : Option Unit) = some () :=
    if_pos hlen
  rw [siphash_phases, hguard, hword0, hword1, hstop, and_seven]
  simp only [Option.bind_eq_bind, Option.bind_some, hloop, htail]
  rw [← habsorbed]

/-- For every input, key and buffer the hash fills the first `outlen` bytes of
the buffer with the digest and leaves the rest of it as it is. -/
theorem siphash_eq_digest (fuel : Nat) (input : List Byte) (inlen : Nat)
    (k out : List Byte) (outlen : Nat) (hin : inlen ≤ input.length)
    (hk : 16 ≤ k.length) (hlen : outlen = 8 ∨ outlen = 16)
    (hout : outlen ≤ out.length) (hfuel : inlen / 8 < fuel) :
    siphash fuel input inlen k out outlen =
      some (0, digest k outlen (input.take inlen) ++ out.drop outlen) := by
  rw [siphash_absorbs out hin hk hlen hfuel, writeDigest_eq _ hlen hout, digest]

theorem siphash_eq_digest_abc :
    siphash 1 [0x61, 0x62, 0x63] 3 usrKey [1, 2, 3, 4, 5, 6, 7, 8, 9] 8 =
      some (0, digest usrKey 8 [0x61, 0x62, 0x63] ++ [9]) :=
  siphash_eq_digest 1 [0x61, 0x62, 0x63] 3 usrKey [1, 2, 3, 4, 5, 6, 7, 8, 9] 8
    (by decide) (by decide) (by decide) (by decide) (by decide)

/-- The reference vector: key `00 … 0f`, input `00 … 0e`. -/
example : (siphash 2 ((List.range 15).map (BitVec.ofNat 8)) 15
    ((List.range 16).map (BitVec.ofNat 8)) (List.replicate 8 0) 8).map
      (fun r => leWord r.2) = some 0xa129ca6149be45e5 := by
  decide +kernel

/-- What `hash_usr` returns does not depend on what its union held before. -/
theorem hashUsr_eq (fuel : Nat) (ret : Word) (s : List Byte)
    (hfuel : s.length / 8 < fuel) :
    hashUsr fuel ret s =
      some (firstOutput (absorbed usrKey 8 s) 8).fold := by
  have hcall := siphash_absorbs (k := usrKey) (leBytes 8 ret)
    (Nat.le_refl s.length) (by decide) (.inl rfl) hfuel
  rw [List.take_length, writeDigest_eq _ (.inl rfl) (by simp), squeeze,
    if_pos rfl, List.append_nil, List.drop_of_length_le (by simp),
    List.append_nil] at hcall
  rw [hashUsr, hcall, Option.bind_eq_bind, Option.bind_some]
  exact u8to64Le_leBytes _

/-! ## What is told apart -/

theorem rotl_getLsbD (x : Word) {b i : Nat} (hb : b ≤ 64) (hi : i < 64) :
    (rotl x b).getLsbD i =
      if i < b then x.getLsbD (64 - b + i) else x.getLsbD (i - b) := by
  by_cases h : i < b
  · simp [rotl, h, hi]
  · have hhigh : x.getLsbD (64 - b + i) = false :=
      x.getLsbD_of_ge _ (by omega)
    rw [rotl, BitVec.getLsbD_or, BitVec.getLsbD_ushiftRight, hhigh,
      BitVec.getLsbD_shiftLeft, if_neg h, decide_eq_true hi, decide_eq_false h,
      Bool.or_false]
    rfl

theorem rotl_injective {b : Nat} (hb : b ≤ 64) :
    Function.Injective fun x => rotl x b := by
  intro x y h
  apply BitVec.eq_of_getLsbD_eq
  intro i hi
  have hbit := fun j => congrArg (BitVec.getLsbD · j) h
  by_cases hlow : i < 64 - b
  · have hj := hbit (i + b)
    have hsub : i + b - b = i := by omega
    simpa only [rotl_getLsbD _ hb (by omega : i + b < 64),
      if_neg (by omega : ¬ i + b < b), hsub] using hj
  · have hj := hbit (i - (64 - b))
    have hadd : 64 - b + (i - (64 - b)) = i := by omega
    simpa only [rotl_getLsbD _ hb (by omega : i - (64 - b) < 64),
      if_pos (by omega : i - (64 - b) < b), hadd] using hj

private def mix (x y : Word) (b : Nat) : Word × Word :=
  (x + y, rotl y b ^^^ (x + y))

private theorem mix_injective {x y x' y' : Word} {b : Nat} (hb : b ≤ 64)
    (h : mix x y b = mix x' y' b) : x = x' ∧ y = y' := by
  obtain ⟨hadd, hxor⟩ := Prod.mk.inj h
  rw [hadd] at hxor
  have hy : y = y' := rotl_injective hb ((BitVec.xor_left_inj _).mp hxor)
  rw [hy] at hadd
  exact ⟨(BitVec.add_left_inj _).mp hadd, hy⟩

private theorem sipRound_eq (s : SipState) :
    sipRound s =
      let a := mix s.v0 s.v1 13
      let c := mix s.v2 s.v3 16
      let d := mix (rotl a.1 32) c.2 21
      let e := mix c.1 a.2 17
      { v0 := d.1, v1 := e.2, v2 := rotl e.1 32, v3 := d.2 } :=
  rfl

theorem sipRound_injective : Function.Injective sipRound := by
  intro s t h
  rw [sipRound_eq, sipRound_eq] at h
  simp only [SipState.mk.injEq] at h
  obtain ⟨h0, h1, h2, h3⟩ := h
  obtain ⟨hc1, ha2⟩ := mix_injective (by omega)
    (Prod.ext (rotl_injective (by omega) h2) h1)
  obtain ⟨ha1, hc2⟩ := mix_injective (by omega) (Prod.ext h0 h3)
  obtain ⟨hv0, hv1⟩ := mix_injective (by omega)
    (Prod.ext (rotl_injective (by omega) ha1) ha2)
  obtain ⟨hv2, hv3⟩ := mix_injective (by omega) (Prod.ext hc1 hc2)
  cases s
  cases t
  simp_all

theorem sipRounds_injective (n : Nat) : Function.Injective (sipRounds n) := by
  induction n with
  | zero => exact fun _ _ h => h
  | succ n ih => exact fun _ _ h => sipRound_injective (ih h)

theorem absorb_injective (m : Word) :
    Function.Injective fun s => absorb s m := by
  intro s t h
  obtain ⟨h0, h1, h2, h3⟩ := (SipState.mk.injEq ..).mp h
  have hrounds := sipRounds_injective cROUNDS
    (SipState.ext ((BitVec.xor_left_inj m).mp h0) h1 h2 h3)
  obtain ⟨k0, k1, k2, k3⟩ := (SipState.mk.injEq ..).mp hrounds
  exact SipState.ext k0 k1 k2 ((BitVec.xor_left_inj m).mp k3)

theorem foldl_absorb_injective (words : List Word) :
    Function.Injective fun s => words.foldl absorb s := by
  induction words with
  | nil => exact fun _ _ h => h
  | cons m words ih => exact fun _ _ h => absorb_injective m (ih h)

private theorem initial_v0 (k0 k1 : Word) (outlen : Nat) :
    (initial k0 k1 outlen).v0 = 0x736f6d6570736575 ^^^ k0 := by
  unfold initial
  split <;> rfl

private theorem initial_v3 (k0 k1 : Word) (outlen : Nat) :
    (initial k0 k1 outlen).v3 = 0x7465646279746573 ^^^ k1 := by
  unfold initial
  split <;> rfl

theorem initial_injective {k0 k1 l0 l1 : Word} {outlen : Nat}
    (h : initial k0 k1 outlen = initial l0 l1 outlen) : k0 = l0 ∧ k1 = l1 := by
  have h0 := congrArg SipState.v0 h
  have h3 := congrArg SipState.v3 h
  rw [initial_v0, initial_v0] at h0
  rw [initial_v3, initial_v3] at h3
  exact ⟨(BitVec.xor_right_inj _).mp h0, (BitVec.xor_right_inj _).mp h3⟩

theorem messageWords_injective : Function.Injective messageWords := by
  intro x y h
  have hcount : x.length / 8 = y.length / 8 := by
    have hlen := congrArg List.length h
    simp only [messageWords, length_leWords] at hlen
    omega
  have hpad : padded x = padded y := by
    rw [messageWords, messageWords, hcount] at h
    exact leWords_injective (by rw [length_padded, hcount]) (length_padded y) h
  have hlast : BitVec.ofNat 8 x.length = BitVec.ofNat 8 y.length := by
    have hgetLast := congrArg List.getLast? hpad
    simpa [padded] using hgetLast
  have hmod : x.length % 2 ^ 8 = y.length % 2 ^ 8 := by
    simpa using congrArg BitVec.toNat hlast
  -- The last byte fixes what `hcount` leaves open, the length modulo 8.
  have hlen : x.length = y.length := by omega
  have htake := congrArg (List.take x.length) hpad
  simpa [padded, hlen] using htake

/-- Nothing of a key or of an input is lost before the digest is formed: the
words determine the input, and two keys never take one input to one state. -/
theorem absorbed_separates (outlen : Nat) :
    (∀ x y, messageWords x = messageWords y → x = y) ∧
      ∀ x k l, k.length = 16 → l.length = 16 →
        absorbed k outlen x = absorbed l outlen x → k = l := by
  refine ⟨fun x y h => messageWords_injective h, ?_⟩
  intro x k l hk hl h
  obtain ⟨hlow, hhigh⟩ := initial_injective (foldl_absorb_injective _ h)
  have htake : k.take 8 = l.take 8 :=
    leWord_injective (by simp [hk, hl]) (by simp) hlow
  have hdrop : (k.drop 8).take 8 = (l.drop 8).take 8 :=
    leWord_injective (by simp [hk, hl]) (by simp) hhigh
  rw [List.take_of_length_le (by simp [hk]),
    List.take_of_length_le (by simp [hl])] at hdrop
  rw [← List.take_append_drop 8 k, htake, hdrop, List.take_append_drop]

end Pview.Hash

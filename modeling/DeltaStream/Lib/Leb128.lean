import DeltaStream.Lib.ByteReader

/-!
# LEB128 numbers of a fixed width

* `encode` — seven bits a byte, lowest first, the high bit set on every byte but the last;
* `decode bits` — the matching reader for a machine word of `bits` bits: groups are or-ed in
  at shifts 0, 7, …, bits above the word are cut off, and a number that continues past the
  width is refused.

* `decode_number`, `decode_ok_number` — what is read is a number up to its last byte, modulo the
  word, and a number of more groups than the word has is refused;
* `encode_number`, `decode_reads` — the writer writes such a number, so every value that fits the
  word is read back, wherever it stands;
* `exact_iff` — so the reader is exact but for a last group that only partly fits the word.
-/

set_option autoImplicit false

namespace Leb128

open ByteReader

variable {ε : Type}

/-- The writer. -/
def encode (value : Nat) : List UInt8 :=
  if 0x80 ≤ value then (UInt8.ofNat value &&& 0x7f ||| 0x80) :: encode (value >>> 7)
  else [UInt8.ofNat value]
termination_by value
decreasing_by simp only [Nat.shiftRight_eq_div_pow]; omega

/-- The reader's loop: `value` has been read so far, the next group goes in at `shift`. -/
def decodeFrom (bits : Nat) (truncated overflow : ε) (value shift : Nat) : ByteReader ε Nat :=
  fun bytes pos =>
    match bytes[pos]? with
    | none => .error truncated
    | some b =>
      let value := value ||| ((b &&& 0x7f).toNat <<< shift) % 2 ^ bits
      if b &&& 0x80 = 0 then .ok (value, pos + 1)
      else if bits ≤ shift + 7 then .error overflow
      else decodeFrom bits truncated overflow value (shift + 7) bytes (pos + 1)
termination_by bits - shift

/-- The reader for a word of `bits` bits. -/
def decode (bits : Nat) (truncated overflow : ε) : ByteReader ε Nat :=
  decodeFrom bits truncated overflow 0 0

/-! ## Bytes of seven bits and a flag -/

theorem low_seven (b : UInt8) : (b &&& 0x7f).toNat = b.toNat % 128 := by
  rw [UInt8.toNat_and]
  exact Nat.and_two_pow_sub_one_eq_mod b.toNat 7

theorem flagged_toNat (v : Nat) : (UInt8.ofNat v &&& 0x7f ||| 0x80).toNat = v % 128 + 128 := by
  have hlow : (UInt8.ofNat v &&& 0x7f).toNat = v % 128 := by
    rw [low_seven, UInt8.toNat_ofNat']
    omega
  have hor : v % 128 ||| 2 ^ 7 * 1 = 2 ^ 7 * 1 + v % 128 := by
    rw [Nat.or_comm, ← Nat.two_pow_add_eq_or_of_lt (Nat.mod_lt v (by decide))]
  rw [UInt8.toNat_or, hlow]
  exact hor.trans (Nat.add_comm _ _)

theorem and_flag_all : ∀ n, n < 256 → (n &&& 128 = 0 ↔ n < 128) := by decide +kernel

theorem flag_clear_iff (b : UInt8) : b &&& 0x80 = 0 ↔ b.toNat < 128 := by
  rw [← UInt8.toNat_inj, UInt8.toNat_and]
  exact and_flag_all b.toNat b.toNat_lt

/-! ## What the reader accepts -/

/-- One number: every byte but the last continues it. -/
inductive IsNumber : List UInt8 → Prop
  | last {b : UInt8} (h : b.toNat < 128) : IsNumber [b]
  | more {b : UInt8} {bs : List UInt8} (h : 128 ≤ b.toNat) (rest : IsNumber bs) :
      IsNumber (b :: bs)

/-- The sum of the groups, each at its own place, with nothing cut off. -/
def groupSum (bs : List UInt8) : Nat := (bs.mapIdx fun i b => b.toNat % 128 * 2 ^ (7 * i)).sum

theorem groupSum_shifted (bs : List UInt8) (k : Nat) :
    (bs.mapIdx fun i b => b.toNat % 128 * 2 ^ (7 * (i + k))).sum = 2 ^ (7 * k) * groupSum bs := by
  unfold groupSum
  induction bs generalizing k with
  | nil => simp
  | cons b bs ih =>
    have hk := ih (k + 1)
    have hone := ih 1
    have hpow : 2 ^ (7 * (k + 1)) = 2 ^ (7 * k) * 2 ^ 7 := by rw [← Nat.pow_add, Nat.mul_add_one]
    simp only [List.mapIdx_cons, List.sum_cons, Nat.zero_add, Nat.add_assoc, Nat.add_comm 1,
      Nat.mul_zero, Nat.pow_zero, Nat.mul_one, hpow] at hk hone ⊢
    rw [hk, hone, Nat.mul_add, Nat.mul_comm (b.toNat % 128), Nat.mul_assoc]

theorem groupSum_cons (b : UInt8) (bs : List UInt8) :
    groupSum (b :: bs) = b.toNat % 128 + 128 * groupSum bs := by
  have h := groupSum_shifted bs 1
  simp only [Nat.mul_one] at h
  rw [groupSum, List.mapIdx_cons, List.sum_cons, h]
  simp

theorem groupSum_singleton (b : UInt8) : groupSum [b] = b.toNat % 128 := by
  simp [groupSum]

theorem groupSum_append (bs : List UInt8) (b : UInt8) :
    groupSum (bs ++ [b]) = groupSum bs + b.toNat % 128 * 2 ^ (7 * bs.length) := by
  unfold groupSum
  simp [List.mapIdx_append]

theorem groupSum_lt (bs : List UInt8) : groupSum bs < 2 ^ (7 * bs.length) := by
  induction bs with
  | nil => simp [groupSum]
  | cons b bs ih =>
    rw [groupSum_cons, List.length_cons, Nat.mul_add_one, Nat.pow_add]
    omega

/-- One group of the reader, on a byte that is there. -/
theorem decodeFrom_byte {bits value shift pos : Nat} {truncated overflow : ε}
    {bytes : List UInt8} {b : UInt8} (hb : bytes[pos]? = some b) :
    decodeFrom bits truncated overflow value shift bytes pos =
      if b.toNat < 128 then
        .ok (value ||| ((b.toNat % 128) <<< shift) % 2 ^ bits, pos + 1)
      else if bits ≤ shift + 7 then .error overflow
      else decodeFrom bits truncated overflow
        (value ||| ((b.toNat % 128) <<< shift) % 2 ^ bits) (shift + 7) bytes (pos + 1) := by
  rw [decodeFrom, hb]
  simp only [flag_clear_iff, low_seven]

/-- Or-ing a group in is adding it, modulo the word. -/
theorem or_group_mod (g : Nat) {bits value shift : Nat} (hv : value < 2 ^ shift)
    (hshift : shift < bits) :
    value ||| (g <<< shift) % 2 ^ bits = (value + g * 2 ^ shift) % 2 ^ bits := by
  have hword : value % 2 ^ bits = value := by
    refine Nat.mod_eq_of_lt (Nat.lt_trans hv ?_)
    exact Nat.pow_lt_pow_right (by decide) hshift
  have hor : value ||| g <<< shift = value + g * 2 ^ shift := by
    rw [Nat.or_comm, ← Nat.shiftLeft_add_eq_or_of_lt hv, Nat.shiftLeft_eq, Nat.add_comm]
  calc value ||| (g <<< shift) % 2 ^ bits
      = value % 2 ^ bits ||| (g <<< shift) % 2 ^ bits := by rw [hword]
    _ = (value ||| g <<< shift) % 2 ^ bits := (Nat.or_mod_two_pow).symm
    _ = (value + g * 2 ^ shift) % 2 ^ bits := by rw [hor]

theorem getElem?_of_drop {bytes rest : List UInt8} {pos : Nat} {b : UInt8}
    (h : bytes.drop pos = b :: rest) : bytes[pos]? = some b ∧ bytes.drop (pos + 1) = rest := by
  constructor
  · have hget : (bytes.drop pos)[0]? = bytes[pos + 0]? := List.getElem?_drop
    simpa [h] using hget.symm
  · rw [← List.drop_drop, h]
    rfl

/-- **What a number is read as**: its sum modulo the word, unless it has more groups than the word
    has places for. -/
theorem decodeFrom_number {truncated overflow : ε} {number : List UInt8} (hn : IsNumber number) :
    ∀ {bits value shift pos : Nat} {bytes after : List UInt8}, shift < bits → value < 2 ^ shift →
      bytes.drop pos = number ++ after →
      decodeFrom bits truncated overflow value shift bytes pos =
        if shift + 7 * (number.length - 1) < bits then
          .ok ((value + groupSum number * 2 ^ shift) % 2 ^ bits, pos + number.length)
        else .error overflow := by
  induction hn with
  | @last b h =>
    intro bits value shift pos bytes after hshift hv hdrop
    obtain ⟨hb, -⟩ := getElem?_of_drop hdrop
    rw [decodeFrom_byte hb, if_pos h, or_group_mod _ hv hshift, groupSum_singleton]
    simp [hshift]
  | @more b bs h hrest ih =>
    intro bits value shift pos bytes after hshift hv hdrop
    obtain ⟨hb, hnext⟩ := getElem?_of_drop hdrop
    have hpos : 0 < bs.length := by cases hrest <;> simp
    rw [decodeFrom_byte hb, if_neg (by omega), or_group_mod _ hv hshift, List.length_cons,
      Nat.add_sub_cancel]
    by_cases hend : bits ≤ shift + 7
    · rw [if_pos hend, if_neg (by omega)]
    have hpow : 2 ^ (shift + 7) = 128 * 2 ^ shift := by rw [Nat.pow_add, Nat.mul_comm]
    have hgroup : b.toNat % 128 * 2 ^ shift ≤ 127 * 2 ^ shift :=
      Nat.mul_le_mul_right _ (by omega)
    -- the number continues, so the group lies wholly inside the word
    have hin : 2 ^ (shift + 7) ≤ 2 ^ bits := Nat.pow_le_pow_right (by decide) (by omega)
    have hless : value + b.toNat % 128 * 2 ^ shift < 2 ^ (shift + 7) := by omega
    have hsum : value + groupSum (b :: bs) * 2 ^ shift =
        value + b.toNat % 128 * 2 ^ shift + groupSum bs * 2 ^ (shift + 7) := by
      rw [groupSum_cons, hpow, Nat.add_mul, Nat.mul_comm 128 (groupSum bs), Nat.mul_assoc,
        Nat.add_assoc]
    rw [if_neg hend, Nat.mod_eq_of_lt (Nat.lt_of_lt_of_le hless hin),
      ih (by omega) hless hnext, hsum]
    have hplaces : shift + 7 + 7 * (bs.length - 1) = shift + 7 * bs.length := by omega
    rw [hplaces, Nat.add_assoc pos, Nat.add_comm 1]

/-- Only numbers are read. -/
theorem decodeFrom_ok_number {bits : Nat} {truncated overflow : ε} {bytes : List UInt8} :
    ∀ {value shift pos : Nat} {result : Nat × Nat},
      decodeFrom bits truncated overflow value shift bytes pos = .ok result →
        ∃ number after, bytes.drop pos = number ++ after ∧ IsNumber number := by
  intro value shift
  induction hk : bits - shift using Nat.strongRecOn generalizing value shift with
  | ind k ih =>
  intro pos result h
  cases hb : bytes[pos]? with
  | none =>
    rw [decodeFrom, hb] at h
    cases h
  | some b =>
    obtain ⟨hlt, hget⟩ := List.getElem?_eq_some_iff.mp hb
    have hdrop : bytes.drop pos = b :: bytes.drop (pos + 1) := by
      rw [List.drop_eq_getElem_cons hlt, hget]
    rw [decodeFrom_byte hb] at h
    split at h
    · rename_i hlast
      exact ⟨[b], bytes.drop (pos + 1), hdrop, .last hlast⟩
    rename_i hmore
    split at h
    · cases h
    · obtain ⟨number, after, hnext, hn⟩ := ih (bits - (shift + 7)) (by omega) rfl h
      refine ⟨b :: number, after, ?_, .more (by omega) hn⟩
      rw [hdrop, hnext, List.cons_append]

theorem decode_number {bits : Nat} {truncated overflow : ε} {bytes number after : List UInt8}
    {pos : Nat} (hbits : 0 < bits) (hn : IsNumber number)
    (hdrop : bytes.drop pos = number ++ after) :
    decode bits truncated overflow bytes pos =
      if 7 * (number.length - 1) < bits then
        .ok (groupSum number % 2 ^ bits, pos + number.length)
      else .error overflow := by
  rw [decode, decodeFrom_number hn hbits (Nat.two_pow_pos 0) hdrop]
  simp

theorem decode_ok_number {bits : Nat} {truncated overflow : ε} {bytes : List UInt8} {pos : Nat}
    {result : Nat × Nat} (h : decode bits truncated overflow bytes pos = .ok result) :
    ∃ number after, bytes.drop pos = number ++ after ∧ IsNumber number :=
  decodeFrom_ok_number h

theorem isNumber_iff {number : List UInt8} :
    IsNumber number ↔ ∃ init b, number = init ++ [b] ∧ (∀ x ∈ init, 128 ≤ x.toNat) ∧
      b.toNat < 128 := by
  constructor
  · intro hn
    induction hn with
    | @last b h => exact ⟨[], b, rfl, by simp, h⟩
    | @more b bs h _ ih =>
      obtain ⟨init, c, rfl, hinit, hc⟩ := ih
      exact ⟨b :: init, c, rfl, by simpa [h] using hinit, hc⟩
  · rintro ⟨init, b, rfl, hinit, hb⟩
    induction init with
    | nil => exact .last hb
    | cons x init ih =>
      exact .more (hinit x (by simp)) (ih fun y hy => hinit y (by simp [hy]))

/-! ## Round trip -/

theorem encode_ne_nil (n : Nat) : encode n ≠ [] := by
  rw [encode]
  split <;> simp

theorem encode_length_pos (n : Nat) : 0 < (encode n).length :=
  List.length_pos_iff.mpr (encode_ne_nil n)

theorem encode_small {n : Nat} (h : n < 128) :
    encode n = [UInt8.ofNat n] ∧ (UInt8.ofNat n).toNat = n := by
  constructor
  · rw [encode, if_neg (by omega)]
  · rw [UInt8.toNat_ofNat']
    omega

theorem encode_big {n : Nat} (h : 128 ≤ n) :
    encode n = (UInt8.ofNat n &&& 0x7f ||| 0x80) :: encode (n / 128) := by
  rw [encode, if_pos h, Nat.shiftRight_eq_div_pow]

/-- The writer writes one number, of that value. -/
theorem encode_number (n : Nat) : IsNumber (encode n) ∧ groupSum (encode n) = n := by
  induction n using Nat.strongRecOn with
  | ind n ih =>
    by_cases hbig : 128 ≤ n
    · obtain ⟨hnumber, hsum⟩ := ih (n / 128) (by omega)
      have hflag := flagged_toNat n
      rw [encode_big hbig]
      refine ⟨.more (by omega) hnumber, ?_⟩
      rw [groupSum_cons, hsum, hflag]
      omega
    · obtain ⟨hencode, hn⟩ := encode_small (Nat.lt_of_not_le hbig)
      rw [hencode]
      refine ⟨.last (by omega), ?_⟩
      rw [groupSum_singleton, hn]
      exact Nat.mod_eq_of_lt (Nat.lt_of_not_le hbig)

/-- All groups of a number that fits the word start inside it. -/
theorem encode_places {n bits : Nat} (hbits : 0 < bits) (h : n < 2 ^ bits) :
    7 * ((encode n).length - 1) < bits := by
  induction n using Nat.strongRecOn generalizing bits with
  | ind n ih =>
    by_cases hbig : 128 ≤ n
    · have hroom : 7 < bits := by
        refine (Nat.pow_lt_pow_iff_right (by decide : 1 < 2)).mp ?_
        exact Nat.lt_of_le_of_lt hbig h
      have hpow : 2 ^ bits = 128 * 2 ^ (bits - 7) := by
        rw [← Nat.sub_add_cancel (Nat.le_of_lt hroom), Nat.pow_add, Nat.mul_comm,
          Nat.add_sub_cancel]
      have hplaces : 7 * ((encode (n / 128)).length - 1) < bits - 7 :=
        ih (n / 128) (by omega) (by omega) (by omega)
      have hpos := encode_length_pos (n / 128)
      rw [encode_big hbig, List.length_cons]
      omega
    · rw [(encode_small (Nat.lt_of_not_le hbig)).1]
      simpa using hbits

/-- **Round trip**: a number that fits the word is read back. -/
theorem decode_reads {bits n : Nat} {truncated overflow : ε} (hbits : 0 < bits)
    (h : n < 2 ^ bits) : Reads (decode bits truncated overflow) (encode n) n := by
  intro before after
  obtain ⟨hnumber, hsum⟩ := encode_number n
  have hdrop : (before ++ (encode n ++ after)).drop before.length = encode n ++ after :=
    List.drop_left
  rw [decode_number hbits hnumber hdrop, if_pos (encode_places hbits h), hsum,
    Nat.mod_eq_of_lt h]

/-! ## Exactness -/

/-- A reader drops no bits at a position: what it returns is the whole sum of the groups it has
    consumed, and a number whose sum does not fit the word is refused. -/
structure ExactAt (bits : Nat) (r : ByteReader ε Nat) (bytes : List UInt8) (pos : Nat) : Prop where
  value : ∀ v last, r bytes pos = .ok (v, last) →
    v = groupSum ((bytes.drop pos).take (last - pos))
  refused : ∀ number after, bytes.drop pos = number ++ after → IsNumber number →
    2 ^ bits ≤ groupSum number → ∃ e, r bytes pos = .error e

/-- `places` bytes continue a number and the next one, of at least `fit`, ends it. -/
def CutOff (places fit : Nat) (bytes : List UInt8) (pos : Nat) : Prop :=
  ∃ init b after, bytes.drop pos = init ++ b :: after ∧ init.length = places ∧
    (∀ x ∈ init, 128 ≤ x.toNat) ∧ fit ≤ b.toNat ∧ b.toNat < 128

/-- A number that fits the places of the word, and whose last group fits what is left of it. -/
theorem groupSum_fits {bits places : Nat} {init : List UInt8} {b : UInt8}
    (hplaces : 7 * places < bits) (hroom : bits ≤ 7 * places + 7) (hlen : init.length ≤ places)
    (hlast : init.length = places → b.toNat % 128 < 2 ^ (bits - 7 * places)) :
    groupSum (init ++ [b]) < 2 ^ bits := by
  rcases Nat.eq_or_lt_of_le hlen with heq | hlt
  · have hlow := groupSum_lt init
    have hpow : 2 ^ bits = 2 ^ (bits - 7 * places) * 2 ^ (7 * places) := by
      rw [← Nat.pow_add]
      congr 1
      omega
    have htop : (b.toNat % 128 + 1) * 2 ^ (7 * places) ≤ 2 ^ bits := by
      rw [hpow]
      exact Nat.mul_le_mul_right _ (hlast heq)
    rw [Nat.add_mul, Nat.one_mul] at htop
    rw [groupSum_append, heq]
    rw [heq] at hlow
    omega
  · have hall := groupSum_lt (init ++ [b])
    refine Nat.lt_of_lt_of_le hall (Nat.pow_le_pow_right (by decide) ?_)
    rw [List.length_append, List.length_singleton]
    omega

/-- **Exactness**: the reader drops bits exactly where a number fills all places of the word and
    its last group does not fit what is left of it. -/
theorem exact_iff {bits places : Nat} {truncated overflow : ε} (hplaces : 7 * places < bits)
    (hroom : bits ≤ 7 * places + 7) (bytes : List UInt8) (pos : Nat) :
    ExactAt bits (decode bits truncated overflow) bytes pos ↔
      ¬CutOff places (2 ^ (bits - 7 * places)) bytes pos := by
  have hbits : 0 < bits := by omega
  constructor
  · rintro hexact ⟨init, b, after, hdrop, hlen, hinit, hfit, hb⟩
    have hn : IsNumber (init ++ [b]) := isNumber_iff.mpr ⟨init, b, rfl, hinit, hb⟩
    have hdrop' : bytes.drop pos = (init ++ [b]) ++ after := by simpa using hdrop
    have hbig : 2 ^ bits ≤ groupSum (init ++ [b]) := by
      rw [groupSum_append, hlen, Nat.mod_eq_of_lt hb]
      calc 2 ^ bits = 2 ^ (bits - 7 * places) * 2 ^ (7 * places) := by
            rw [← Nat.pow_add]
            congr 1
            omega
        _ ≤ b.toNat * 2 ^ (7 * places) := Nat.mul_le_mul_right _ hfit
        _ ≤ groupSum init + b.toNat * 2 ^ (7 * places) := Nat.le_add_left _ _
    obtain ⟨e, he⟩ := hexact.refused _ _ hdrop' hn hbig
    rw [decode_number hbits hn hdrop', if_pos (by simp [hlen, hplaces])] at he
    cases he
  · intro hcut
    have hfits : ∀ number after, bytes.drop pos = number ++ after → IsNumber number →
        7 * (number.length - 1) < bits → groupSum number < 2 ^ bits := by
      intro number after hdrop hn hlen
      obtain ⟨init, b, rfl, hinit, hb⟩ := isNumber_iff.mp hn
      rw [List.length_append, List.length_singleton, Nat.add_sub_cancel] at hlen
      refine groupSum_fits hplaces hroom (by omega) fun heq => ?_
      rw [Nat.mod_eq_of_lt hb]
      refine Nat.lt_of_not_le fun hfit => hcut ⟨init, b, after, ?_, heq, hinit, hfit, hb⟩
      simpa using hdrop
    constructor
    · intro v last h
      obtain ⟨number, after, hdrop, hn⟩ := decode_ok_number h
      rw [decode_number hbits hn hdrop] at h
      split at h
      · rename_i hlen
        have hsum := hfits number after hdrop hn hlen
        cases h
        rw [hdrop]
        simpa using Nat.mod_eq_of_lt hsum
      · cases h
    · intro number after hdrop hn hbig
      rw [decode_number hbits hn hdrop]
      split
      · rename_i hlen
        exact absurd (hfits number after hdrop hn hlen) (by omega)
      · exact ⟨overflow, rfl⟩

end Leb128

import Mathlib.Algebra.Ring.Nat

/-!
# Byte readers and the encodings they read

A `ByteReader` looks at a byte string from a position on and returns a value together with
the position after it, or fails.  Two relations describe what a reader does on the output of
a matching writer:

* `Reads r enc a` — wherever `enc` stands in a byte string, `r` started in front of it
  returns `a` and stops right behind it;
* `ReadsAll r enc a` — the same when nothing follows `enc` (so `r` may check for the end).

Both compose along `>>=` (`Reads.bind`, `Reads.bindAll`), which is how a round trip of a
whole format is put together from the round trips of its fields.  In the other direction,
`bind_eq_ok`, `require_eq_ok` and `take_eq_ok` take a successful read apart.  The last section
has fixed-width little-endian numbers.
-/

set_option autoImplicit false

/-- A reader: byte string and position in, value and next position out. -/
def ByteReader (ε α : Type) : Type := List UInt8 → Nat → Except ε (α × Nat)

namespace ByteReader

variable {ε α β : Type}

instance : Monad (ByteReader ε) where
  pure a := fun _ pos => .ok (a, pos)
  bind r f := fun bytes pos =>
    match r bytes pos with
    | .error e => .error e
    | .ok (a, next) => f a bytes next

/-- Stop with an error. -/
def fail (e : ε) : ByteReader ε α := fun _ _ => .error e

/-- Fail unless the condition holds. -/
def require (ok : Bool) (e : ε) : ByteReader ε Unit := if ok then pure () else fail e

/-- The next byte. -/
def byte (short : ε) : ByteReader ε UInt8 := fun bytes pos =>
  match bytes[pos]? with
  | none => .error short
  | some b => .ok (b, pos + 1)

/-- The next `n` bytes.  Behind the end there are two errors: `overflow` when the end
    position itself exceeds the largest machine position `limit`, `short` otherwise. -/
def take (limit n : Nat) (overflow short : ε) : ByteReader ε (List UInt8) := fun bytes pos =>
  if pos + n ≤ bytes.length then .ok ((bytes.drop pos).take n, pos + n)
  else if pos + n > limit then .error overflow
  else .error short

/-- Succeed only at the end of the byte string. -/
def finish (trailing : ε) : ByteReader ε Unit := fun bytes pos =>
  if pos = bytes.length then .ok ((), pos) else .error trailing

/-- Number of bytes from the position to the end. -/
def remaining : ByteReader ε Nat := fun bytes pos => .ok (bytes.length - pos, pos)

/-- Run a reader from the start of a byte string. -/
def run (r : ByteReader ε α) (bytes : List UInt8) : Except ε α :=
  match r bytes 0 with
  | .error e => .error e
  | .ok (a, _) => .ok a

theorem bind_apply (r : ByteReader ε α) (f : α → ByteReader ε β) (bytes : List UInt8)
    (pos : Nat) :
    (r >>= f) bytes pos =
      (match r bytes pos with
       | .error e => .error e
       | .ok (a, next) => f a bytes next) := rfl

theorem bind_of_ok {r : ByteReader ε α} {f : α → ByteReader ε β} {bytes : List UInt8}
    {pos next : Nat} {a : α} (h : r bytes pos = .ok (a, next)) :
    (r >>= f) bytes pos = f a bytes next := by
  rw [bind_apply, h]

theorem id_map_apply (r : ByteReader ε α) : id <$> r = r := by
  funext bytes pos
  show (match r bytes pos with
    | .error e => .error e
    | .ok (a, next) => .ok (a, next)) = r bytes pos
  cases r bytes pos <;> rfl

theorem bind_assoc_apply {γ : Type} (r : ByteReader ε α) (f : α → ByteReader ε β)
    (g : β → ByteReader ε γ) : r >>= f >>= g = r >>= fun a => f a >>= g := by
  funext bytes pos
  simp only [bind_apply]
  cases r bytes pos <;> rfl

instance : LawfulMonad (ByteReader ε) :=
  LawfulMonad.mk' (ByteReader ε) id_map_apply (fun _ _ => rfl) bind_assoc_apply

/-! ## What a successful read says -/

theorem bind_eq_ok {r : ByteReader ε α} {f : α → ByteReader ε β} {bytes : List UInt8}
    {pos last : Nat} {b : β} :
    (r >>= f) bytes pos = .ok (b, last) ↔
      ∃ a next, r bytes pos = .ok (a, next) ∧ f a bytes next = .ok (b, last) := by
  rw [bind_apply]
  constructor
  · intro h
    cases hr : r bytes pos with
    | error e =>
      rw [hr] at h
      cases h
    | ok read =>
      obtain ⟨a, next⟩ := read
      rw [hr] at h
      exact ⟨a, next, rfl, h⟩
  · rintro ⟨a, next, hr, hf⟩
    rw [hr]
    exact hf

theorem pure_eq_ok {bytes : List UInt8} {pos last : Nat} {a b : α} :
    (pure a : ByteReader ε α) bytes pos = .ok (b, last) ↔ a = b ∧ pos = last := by
  constructor
  · intro h
    cases h
    exact ⟨rfl, rfl⟩
  · rintro ⟨rfl, rfl⟩
    rfl

theorem require_eq_ok {ok : Bool} {e : ε} {bytes : List UInt8} {pos last : Nat} {u : Unit} :
    require ok e bytes pos = .ok (u, last) ↔ ok = true ∧ pos = last := by
  unfold require
  cases ok with
  | true => simpa using pure_eq_ok (a := ()) (b := u)
  | false =>
    constructor
    · intro h
      cases h
    · rintro ⟨h, -⟩
      cases h

theorem take_eq_ok {limit n : Nat} {overflow short : ε} {bytes out : List UInt8}
    {pos last : Nat} (h : take limit n overflow short bytes pos = .ok (out, last)) :
    pos + n ≤ bytes.length ∧ out.length = n ∧ last = pos + n := by
  unfold take at h
  split at h
  · rename_i hle
    cases h
    refine ⟨hle, ?_, rfl⟩
    rw [List.length_take, List.length_drop]
    omega
  split at h
  · cases h
  · cases h

theorem run_eq_ok {r : ByteReader ε α} {bytes : List UInt8} {a : α} :
    run r bytes = .ok a ↔ ∃ last, r bytes 0 = .ok (a, last) := by
  unfold run
  constructor
  · intro h
    split at h
    · cases h
    · rename_i read last hr
      cases h
      exact ⟨last, hr⟩
  · rintro ⟨last, hr⟩
    rw [hr]

/-! ## What a reader reads -/

/-- `r` reads exactly `enc`, with anything around it, and returns `a`. -/
def Reads (r : ByteReader ε α) (enc : List UInt8) (a : α) : Prop :=
  ∀ before after, r (before ++ (enc ++ after)) before.length =
    .ok (a, before.length + enc.length)

/-- `r` reads exactly `enc` when `enc` ends the byte string, and returns `a`. -/
def ReadsAll (r : ByteReader ε α) (enc : List UInt8) (a : α) : Prop :=
  ∀ before, r (before ++ enc) before.length = .ok (a, before.length + enc.length)

theorem Reads.all {r : ByteReader ε α} {enc : List UInt8} {a : α} (h : Reads r enc a) :
    ReadsAll r enc a := by
  intro before
  simpa using h before []

theorem Reads.pure (a : α) : Reads (Pure.pure a : ByteReader ε α) [] a :=
  fun _ _ => rfl

theorem ReadsAll.pure (a : α) : ReadsAll (Pure.pure a : ByteReader ε α) [] a :=
  (Reads.pure a).all

theorem Reads.bind {r : ByteReader ε α} {f : α → ByteReader ε β} {enc₁ enc₂ : List UInt8}
    {a : α} {b : β} (h₁ : Reads r enc₁ a) (h₂ : Reads (f a) enc₂ b) :
    Reads (r >>= f) (enc₁ ++ enc₂) b := by
  intro before after
  have e₁ := h₁ before (enc₂ ++ after)
  have e₂ := h₂ (before ++ enc₁) after
  rw [List.append_assoc enc₁, bind_of_ok e₁]
  simpa [Nat.add_assoc] using e₂

theorem Reads.bindAll {r : ByteReader ε α} {f : α → ByteReader ε β} {enc₁ enc₂ : List UInt8}
    {a : α} {b : β} (h₁ : Reads r enc₁ a) (h₂ : ReadsAll (f a) enc₂ b) :
    ReadsAll (r >>= f) (enc₁ ++ enc₂) b := by
  intro before
  have e₁ := h₁ before enc₂
  have e₂ := h₂ (before ++ enc₁)
  rw [bind_of_ok e₁]
  simpa [Nat.add_assoc] using e₂

/-- A step that reads nothing. -/
theorem Reads.bind_nil {r : ByteReader ε α} {f : α → ByteReader ε β} {enc : List UInt8}
    {a : α} {b : β} (h₁ : Reads r [] a) (h₂ : Reads (f a) enc b) : Reads (r >>= f) enc b :=
  h₁.bind h₂

theorem Reads.bindAll_nil {r : ByteReader ε α} {f : α → ByteReader ε β} {enc : List UInt8}
    {a : α} {b : β} (h₁ : Reads r [] a) (h₂ : ReadsAll (f a) enc b) :
    ReadsAll (r >>= f) enc b :=
  h₁.bindAll h₂

theorem ReadsAll.bind_nil {r : ByteReader ε α} {f : α → ByteReader ε β} {enc : List UInt8}
    {a : α} {b : β} (h₁ : ReadsAll r enc a) (h₂ : ReadsAll (f a) [] b) :
    ReadsAll (r >>= f) enc b := by
  intro before
  rw [bind_of_ok (h₁ before)]
  simpa using h₂ (before ++ enc)

theorem Reads.map {r : ByteReader ε α} {enc : List UInt8} {a : α} (h : Reads r enc a)
    (f : α → β) : Reads (r >>= fun x => Pure.pure (f x)) enc (f a) := by
  simpa using h.bind (f := fun x => Pure.pure (f x)) (Reads.pure (f a))

theorem Reads.require {ok : Bool} {e : ε} (h : ok = true) : Reads (require ok e) [] () := by
  unfold ByteReader.require
  rw [if_pos h]
  exact Reads.pure ()

theorem Reads.byte (b : UInt8) (short : ε) : Reads (byte short) [b] b := by
  intro before after
  simp [ByteReader.byte]

theorem Reads.take {limit n : Nat} {overflow short : ε} (enc : List UInt8)
    (hn : enc.length = n) : Reads (take limit n overflow short) enc enc := by
  intro before after
  subst hn
  simp [ByteReader.take]

theorem ReadsAll.finish (trailing : ε) : ReadsAll (finish trailing) [] () := by
  intro before
  simp [ByteReader.finish]

theorem ReadsAll.remaining_bind {f : Nat → ByteReader ε β} {enc : List UInt8} {b : β}
    (h : ReadsAll (f enc.length) enc b) : ReadsAll (ByteReader.remaining >>= f) enc b := by
  intro before
  rw [bind_of_ok (show (ByteReader.remaining : ByteReader ε Nat) (before ++ enc) before.length =
    .ok (enc.length, before.length) by simp [ByteReader.remaining])]
  exact h before

theorem ReadsAll.run {r : ByteReader ε α} {enc : List UInt8} {a : α} (h : ReadsAll r enc a) :
    r.run enc = .ok a := by
  have := h []
  simp only [List.nil_append, List.length_nil] at this
  simp [ByteReader.run, this]

/-- Run from the start of a byte string, a reader is not disturbed by what follows. -/
theorem Reads.run {r : ByteReader ε α} {enc : List UInt8} {a : α} (h : Reads r enc a)
    (after : List UInt8) : ByteReader.run r (enc ++ after) = .ok a := by
  have hread := h [] after
  simp only [List.nil_append, List.length_nil] at hread
  unfold ByteReader.run
  rw [hread]

/-- What one reader reads is prefix-free. -/
theorem Reads.prefix_free {r : ByteReader ε α} {enc₁ enc₂ : List UInt8} {a b : α}
    (h₁ : Reads r enc₁ a) (h₂ : Reads r enc₂ b) (hstart : enc₁ <+: enc₂) :
    enc₁ = enc₂ ∧ a = b := by
  obtain ⟨rest, rfl⟩ := hstart
  have hread₁ := h₁ [] rest
  have hread₂ := h₂ [] []
  rw [List.append_nil, hread₁] at hread₂
  obtain ⟨hab, hlen⟩ := Prod.mk.inj (Except.ok.inj hread₂)
  have hrest : rest = [] := by
    refine List.eq_nil_of_length_eq_zero ?_
    rw [List.length_append] at hlen
    omega
  rw [hrest, List.append_nil]
  exact ⟨rfl, hab⟩

/-- Read the encoding, then check that nothing follows. -/
theorem Reads.finished {r : ByteReader ε α} {enc : List UInt8} {a : α} (h : Reads r enc a)
    (trailing : ε) :
    ReadsAll (r >>= fun x => ByteReader.finish trailing >>= fun _ => Pure.pure x) enc a :=
  ReadsAll.bind_nil h.all (ReadsAll.bind_nil (ReadsAll.finish trailing) (ReadsAll.pure a))

/-! ## Little-endian numbers -/

/-- The low `k` bytes of `v`, least significant first. -/
def leBytes : Nat → Nat → List UInt8
  | 0, _ => []
  | k + 1, v => UInt8.ofNat v :: leBytes k (v / 256)

/-- The number a little-endian byte string stands for. -/
def leValue : List UInt8 → Nat
  | [] => 0
  | b :: bs => b.toNat + 256 * leValue bs

@[simp] theorem leBytes_length (k v : Nat) : (leBytes k v).length = k := by
  induction k generalizing v with
  | zero => rfl
  | succ k ih => simp [leBytes, ih]

theorem leValue_leBytes (k v : Nat) : leValue (leBytes k v) = v % 256 ^ k := by
  induction k generalizing v with
  | zero => simp [leBytes, leValue, Nat.mod_one]
  | succ k ih =>
    have hb : (UInt8.ofNat v).toNat = v % 256 := UInt8.toNat_ofNat'
    rw [leBytes, leValue, ih, hb, Nat.pow_succ', Nat.mod_mul]

theorem leBytes_inj {k a b : Nat} (h : leBytes k a = leBytes k b) (ha : a < 256 ^ k)
    (hb : b < 256 ^ k) : a = b := by
  have hvalue := congrArg leValue h
  rwa [leValue_leBytes, leValue_leBytes, Nat.mod_eq_of_lt ha, Nat.mod_eq_of_lt hb] at hvalue

theorem leValue_lt : ∀ bs : List UInt8, leValue bs < 256 ^ bs.length
  | [] => Nat.one_pos
  | b :: bs => by
    have hb := b.toNat_lt
    have ih := leValue_lt bs
    rw [leValue, List.length_cons, Nat.pow_succ']
    omega

theorem leBytes_leValue : ∀ bs : List UInt8, leBytes bs.length (leValue bs) = bs
  | [] => rfl
  | b :: bs => by
    have hb := b.toNat_lt
    have hdiv : (b.toNat + 256 * leValue bs) / 256 = leValue bs := by omega
    have hmod : UInt8.ofNat (b.toNat + 256 * leValue bs) = b := by
      apply UInt8.toNat_inj.mp
      rw [UInt8.toNat_ofNat']
      omega
    rw [List.length_cons, leValue, leBytes, hdiv, hmod, leBytes_leValue bs]

end ByteReader

import Mathlib

/-!
# Computations that read memory

A computation over memory answers a value and the offsets it has read, in order. What a
computation reads of an interval is composed along its binds, so a bound on all reads follows the
structure of the computation.
-/

namespace RoutePlatform.ReadTrace

open List

universe u

variable {off : ℕ} {k : ℕ}

abbrev Byte := BitVec 8

/-- Memory, from the start of what is read. -/
abbrev Memory := ℕ→Byte

/-- A computation that reads memory: its value and the offsets it has read. -/
def Reading (α : Type u) : Type u := Memory→α × List ℕ

namespace Reading

variable {α β : Type u} {mem : Memory} {a b : ℕ} {r : Reading α} {f : α→Reading β} (x : α)

def value (r : Reading α) (mem : Memory) : α := (r mem).1

/-- The offsets that a computation has read. -/
def offsets (r : Reading α) (mem : Memory) : List ℕ := (r mem).2

instance : Monad Reading where
  pure x := fun _ => (x,[])
  bind r f := fun mem => ((f (r mem).1 mem).1,(r mem).2++(f (r mem).1 mem).2)

def byte (off : ℕ) : Reading Byte := fun mem => (mem off,[off])

/-- A run of bytes is read. -/
def bytes (off n : ℕ) : Reading (List Byte) := fun mem =>
  ((List.range n).map fun k => mem (off+k),(List.range n).map fun k => off+k)

/-- Two bytes, the first one is the high one. -/
def u16 (off : ℕ) : Reading ℕ := do
  let high ← byte off
  let low ← byte (off+1)
  pure (high.toNat*256+low.toNat)

/-- Four bytes, the first one is the highest. -/
def u32 (off : ℕ) : Reading ℕ := do
  let high ← u16 off
  let low ← u16 (off+2)
  pure (high*65536+low)

@[simp] theorem value_pure : (pure x : Reading α).value mem=x := rfl

@[simp] theorem value_bind (r : Reading α) (f : α→Reading β) :
    (r >>= f).value mem=(f (r.value mem)).value mem := rfl

@[simp] theorem value_byte (off : ℕ) : (byte off).value mem=mem off := rfl

@[simp] theorem value_bytes (off n : ℕ) :
    (bytes off n).value mem=(List.range n).map fun k => mem (off+k) := rfl

theorem value_u16 (off : ℕ) : (u16 off).value mem=(mem off).toNat*256+(mem (off+1)).toNat := rfl

theorem value_u32 (off : ℕ) :
    (u32 off).value mem=(u16 off).value mem*65536+(u16 (off+2)).value mem := rfl

theorem value_u16_lt (off : ℕ) : (u16 off).value mem<65536 := by
  rw [value_u16]
  omega

/-- All that is read lies in an interval. -/
def Within (r : Reading α) (mem : Memory) (a b : ℕ) : Prop := ∀ o∈r.offsets mem, a≤o ∧ o<b

theorem within_pure : Within (pure x : Reading α) mem a b := by
  intro o ho
  cases ho

theorem Within.bind (hr : Within r mem a b) (hf : Within (f (r.value mem)) mem a b) :
    Within (r >>= f) mem a b := by
  intro o ho
  rcases mem_append.mp ho with ho|ho
  · exact hr o ho
  · exact hf o ho

theorem Within.mono {a' b' : ℕ} (h : Within r mem a b) (ha : a'≤a) (hb : b≤b') :
    Within r mem a' b' := by
  intro o ho
  obtain ⟨h1,h2⟩ := h o ho
  omega

theorem within_byte (h : a≤off) (h' : off<b) : Within (byte off) mem a b := by
  intro o ho
  rw [mem_singleton.mp ho]
  exact ⟨h,h'⟩

theorem within_bytes {n : ℕ} (h : a≤off) (h' : off+n≤b) : Within (bytes off n) mem a b := by
  intro o ho
  obtain ⟨k,hk,rfl⟩ := mem_map.mp ho
  have := mem_range.mp hk
  omega

theorem within_u16 (h : a≤off) (h' : off+2≤b) : Within (u16 off) mem a b :=
  (within_byte h (by omega)).bind ((within_byte (by omega) (by omega)).bind (within_pure _))

theorem within_u32 (h : a≤off) (h' : off+4≤b) : Within (u32 off) mem a b :=
  (within_u16 h (by omega)).bind ((within_u16 (by omega) (by omega)).bind (within_pure _))

variable {n : ℕ}

theorem within_bind_iff :
    Within (r >>= f) mem a b ↔ Within r mem a b ∧ Within (f (r.value mem)) mem a b := by
  refine ⟨fun h => ⟨fun o ho => h o ?_,fun o ho => h o ?_⟩,fun h => h.1.bind h.2⟩
  · exact mem_append_left _ ho
  · exact mem_append_right _ ho

theorem below_byte_iff : Within (byte off) mem 0 n ↔ off<n :=
  ⟨fun h => (h off mem_cons_self).2,fun h => within_byte (Nat.zero_le _) h⟩

theorem below_u16_iff : Within (u16 off) mem 0 n ↔ off+2≤n :=
  ⟨fun h => (h (off+1) (.tail _ mem_cons_self)).2, fun h => within_u16 (Nat.zero_le _) h⟩

theorem below_bytes_iff : Within (bytes off k) mem 0 n ↔ k=0 ∨ off+k≤n := by
  constructor
  · intro h
    by_cases hk : k=0
    · exact .inl hk
    have hlast := h (off+(k-1)) (mem_map.mpr ⟨k-1,mem_range.mpr (by omega),rfl⟩)
    exact .inr (by omega)
  · rintro (rfl|h)
    · exact fun o ho => absurd ho not_mem_nil
    · exact within_bytes (Nat.zero_le _) h

end Reading

section

variable {mem : Memory} {off : ℕ}

/-- Bytes are stored at an offset. -/
def Stored (mem : Memory) (off : ℕ) (bytes : List Byte) : Prop :=
  ∀ k, ∀ h : k<bytes.length, mem (off+k)=bytes.get ⟨k,h⟩

theorem Stored.getD {bytes : List Byte} (h : Stored mem off bytes) (hk : k<bytes.length) :
    mem (off+k)=bytes.getD k 0 := by
  rw [h k hk]
  simp [getD_eq_getElem?_getD,hk]

theorem stored_append {xs ys : List Byte} :
    Stored mem off (xs++ys) ↔ Stored mem off xs ∧ Stored mem (off+xs.length) ys := by
  constructor
  · intro h
    refine ⟨fun k hk => ?_,fun k hk => ?_⟩
    · have hk' : k<(xs++ys).length := by
        rw [length_append]
        omega
      rw [h k hk']
      exact getElem_append_left hk
    have hk' : xs.length+k<(xs++ys).length := by
      rw [length_append]
      omega
    rw [add_assoc,h _ hk']
    change (xs++ys)[xs.length+k]=ys[k]
    rw [getElem_append_right (Nat.le_add_right _ _)]
    congr 1
    omega
  · rintro ⟨hx,hy⟩ k hk
    rw [length_append] at hk
    by_cases hlt : k<xs.length
    · rw [hx k hlt]
      exact (getElem_append_left hlt).symm
    have hlt' : k-xs.length<ys.length := by omega
    have hsto := hy (k-xs.length) hlt'
    rw [show off+xs.length+(k-xs.length)=off+k by omega] at hsto
    rw [hsto]
    exact (getElem_append_right (by omega)).symm

/-- Memory that starts with some bytes. -/
def memoryOf (bytes : List Byte) (behind : Memory) : Memory := fun o => bytes.getD o (behind o)

theorem stored_memoryOf (bytes : List Byte) (behind : Memory) :
    Stored (memoryOf bytes behind) 0 bytes := by
  intro k hk
  rw [memoryOf,zero_add]
  simp [getD_eq_getElem?_getD,hk]

end

end RoutePlatform.ReadTrace

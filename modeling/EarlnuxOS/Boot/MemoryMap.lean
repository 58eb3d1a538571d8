import EarlnuxOS.Foundation.LittleEndian
import EarlnuxOS.Mm.Pmm.Init

/-!
# The memory map of the boot loader

`parse_memory_map` of `kernel/kernel.c`.  The map is a sequence of records that
say how long they are.  The loop stops where a record would start at or behind
the end of the map, and after 64 records; it trusts the boot loader that a
record which starts before the end is there in full.
-/

namespace EarlnuxOS
namespace Boot

open Foundation Mm

/-- The fields of `multiboot_info_t` that describe the map. -/
structure MultibootInfo where
  flags : UInt32
  mmapLength : UInt32
  mmapAddr : UInt32

/-!
# The walk
-/

def entrySize : Nat := 24

/-- `((uint64_t)high << 32) | low` -/
def joinWords (high low : Nat) : UInt64 :=
  UInt64.ofNat high <<< 32 ||| UInt64.ofNat low

def entryAt (m : Memory) (e : Nat) : MemMapEntry where
  base := joinWords (load32 m (e + 8)) (load32 m (e + 4))
  length := joinWords (load32 m (e + 16)) (load32 m (e + 12))
  type := UInt32.ofNat (load32 m (e + 20))

/-- The entries so far, and the addresses of the bytes that were read. -/
structure Walk where
  entries : List MemMapEntry
  reads : List Nat

/-- A round of the loop: all the fields of a record are read. -/
def Walk.add (w : Walk) (m : Memory) (e : Nat) : Walk where
  entries := w.entries ++ [entryAt m e]
  reads := w.reads ++ List.range' e entrySize

def fakeMap : MemMapEntry where
  base := 0x00100000
  length := 63 * 1024 * 1024
  type := memtypeUsable

/-- A complete record: its size, which is at least 20, and that many bytes. -/
structure MmapRecord where
  bytes : List UInt8
  whole : entrySize ≤ bytes.length
  sized : leNum (bytes.take 4) + 4 = bytes.length

/-- The number in the `k` bytes of a record from the `i`th on. -/
def MmapRecord.field (r : MmapRecord) (i k : Nat) : Nat :=
  leNum ((r.bytes.drop i).take k)

/-- The 64-bit base, the 64-bit length and the type of a record. -/
def MmapRecord.entry (r : MmapRecord) : MemMapEntry where
  base := UInt64.ofNat (r.field 4 8)
  length := UInt64.ofNat (r.field 12 8)
  type := UInt32.ofNat (r.field 20 4)

namespace MultibootInfo

def Holds (info : MultibootInfo) (m : Memory) (bytes : List UInt8) : Prop :=
  readBytes m info.mmapAddr.toNat info.mmapLength.toNat = bytes

def Fits (info : MultibootInfo) : Prop :=
  info.mmapAddr.toNat + info.mmapLength.toNat < 2 ^ 32

instance (info : MultibootInfo) (m : Memory) (bytes : List UInt8) :
    Decidable (info.Holds m bytes) :=
  inferInstanceAs (Decidable (readBytes m _ _ = bytes))

instance (info : MultibootInfo) : Decidable info.Fits :=
  inferInstanceAs (Decidable (_ < _))

end MultibootInfo

theorem joinWords_eq {high low : Nat} (hhigh : high < 2 ^ 32)
    (hlow : low < 2 ^ 32) :
    joinWords high low = UInt64.ofNat (low + 2 ^ 32 * high) := by
  have hshift : high <<< 32 = 2 ^ 32 * high := by
    rw [Nat.shiftLeft_eq, Nat.mul_comm]
  apply UInt64.toNat_inj.mp
  unfold joinWords
  rw [UInt64.toNat_or, UInt64.toNat_shiftLeft,
    UInt64.toNat_ofNat_of_lt' (by show high < 2 ^ 64; omega),
    UInt64.toNat_ofNat_of_lt' (by show low < 2 ^ 64; omega),
    UInt64.toNat_ofNat_of_lt' (by show _ < 2 ^ 64; omega),
    show (32 : UInt64).toNat % 64 = 32 from rfl,
    Nat.mod_eq_of_lt (by rw [hshift]; omega),
    ← Nat.shiftLeft_add_eq_or_of_lt hlow, hshift, Nat.add_comm]

theorem MmapRecord.load32_field {r : MmapRecord} {m : Memory} {e : Nat}
    (h : HoldsAt m e r.bytes) {i : Nat} (hi : i + 4 ≤ r.bytes.length) :
    load32 m (e + i) = r.field i 4 := by
  unfold MmapRecord.field
  rw [load32_eq_leNum, readBytes_slice m e hi, h]

theorem MmapRecord.field_split (r : MmapRecord) {i : Nat}
    (hi : i + 8 ≤ r.bytes.length) :
    r.field i 8 = r.field i 4 + 2 ^ 32 * r.field (i + 4) 4 := by
  have hfour : ((r.bytes.drop i).take 4).length = 4 := by
    rw [List.length_take, List.length_drop]
    omega
  have hsplit : (r.bytes.drop i).take 8 =
      (r.bytes.drop i).take 4 ++ (r.bytes.drop (i + 4)).take 4 := by
    rw [show 8 = 4 + 4 from rfl, List.take_add, List.drop_drop]
  unfold MmapRecord.field
  rw [hsplit, leNum_append, hfour]
  rfl

theorem MmapRecord.joinWords_field {r : MmapRecord} {m : Memory} {e : Nat}
    (h : HoldsAt m e r.bytes) {i : Nat} (hi : i + 8 ≤ r.bytes.length) :
    joinWords (load32 m (e + (i + 4))) (load32 m (e + i)) =
      UInt64.ofNat (r.field i 8) := by
  rw [joinWords_eq (load32_lt _ _) (load32_lt _ _),
    MmapRecord.load32_field h (by omega), MmapRecord.load32_field h (by omega),
    r.field_split hi]

theorem MmapRecord.entryAt_eq {r : MmapRecord} {m : Memory} {e : Nat}
    (h : HoldsAt m e r.bytes) : entryAt m e = r.entry := by
  have hlen := r.whole
  unfold entrySize at hlen
  have hbase := MmapRecord.joinWords_field h (i := 4) (by omega)
  have hlength := MmapRecord.joinWords_field h (i := 12) (by omega)
  have htype := MmapRecord.load32_field h (i := 20) (by omega)
  unfold entryAt MmapRecord.entry
  rw [hbase, hlength, htype]

theorem MmapRecord.next_eq {r : MmapRecord} {m : Memory} {e : Nat}
    (h : HoldsAt m e r.bytes) (hlt : e + r.bytes.length < 2 ^ 32) :
    add32 (add32 e (load32 m e)) 4 = e + r.bytes.length := by
  have hsize : load32 m e + 4 = r.bytes.length := by
    have hload := MmapRecord.load32_field h (i := 0) (by
      have hlen := r.whole
      unfold entrySize at hlen
      omega)
    rw [Nat.add_zero] at hload
    rw [hload]
    exact r.sized
  unfold add32
  omega

/-!
# All records
-/

def Walk.Within (lo stop : Nat) (w : Walk) : Prop :=
  forall x, x ∈ w.reads -> lo ≤ x ∧ x < stop

theorem Walk.Within.add {lo stop e : Nat} {w : Walk} (m : Memory)
    (h : w.Within lo stop) (hlo : lo ≤ e) (hstop : e + entrySize ≤ stop) :
    (w.add m e).Within lo stop := by
  intro x hx
  rcases List.mem_append.mp hx with hx | hx
  · exact h x hx
  · rw [List.mem_range'_1] at hx
    omega

namespace MultibootInfo

end MultibootInfo

end Boot
end EarlnuxOS

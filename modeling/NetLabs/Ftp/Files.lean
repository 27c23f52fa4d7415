import NetLabs.Ftp.Post
import Mathlib.Data.List.TakeWhile

/-!
# C strings and files

`readFile` and `writeFile` follow `read_file` and `write_file`.  What opening
the file gives is their argument: `none` when the stream is not good.
-/

namespace NetLabs.Ftp

/-- The C string that starts a piece of memory. -/
def cString (mem : List UInt8) : List UInt8 := mem.takeWhile (· ≠ 0)

/-- A literal of the source as a C string. -/
def literal (s : String) : List UInt8 := s.toList.map fun ch => UInt8.ofNat ch.toNat

theorem cString_cons {b : UInt8} (hb : b ≠ 0) (mem : List UInt8) :
    cString (b :: mem) = b :: cString mem :=
  List.takeWhile_cons_of_pos (by simpa using hb)

theorem cString_append_terminated (mem rest : List UInt8) :
    cString (mem ++ 0 :: rest) = cString mem := by
  induction mem with
  | nil => rfl
  | cons b mem ih =>
    by_cases hb : b = 0
    · subst hb
      rfl
    · rw [List.cons_append, cString_cons hb, cString_cons hb, ih]

theorem zero_not_mem_cString (mem : List UInt8) : 0 ∉ cString mem := by
  intro hmem
  have hkept := List.mem_takeWhile_imp hmem
  simp at hkept

theorem cString_eq_self {text : List UInt8} (h : 0 ∉ text) : cString text = text := by
  rw [cString, List.takeWhile_eq_self_iff]
  intro b hb
  rw [decide_eq_true_iff]
  intro heq
  exact h (heq ▸ hb)

theorem cString_terminated (mem rest : List UInt8) :
    cString (cString mem ++ 0 :: rest) = cString mem := by
  rw [cString_append_terminated, cString_eq_self (zero_not_mem_cString mem)]

/-- A file opened for reading: what `tellg` returns at its end, which is `-1`
for a file that cannot be positioned (a directory), and its bytes. -/
structure InFile where
  tellg : Int
  bytes : List UInt8
  deriving DecidableEq, Repr

/-- A file opened for writing, with the number of bytes it can still take. -/
structure OutFile where
  room : Nat
  deriving DecidableEq, Repr

/-- The file can be opened and its size is not negative as an `int`. -/
def Readable (ifs : Option InFile) : Prop := ∃ file, ifs = some file ∧ 0 ≤ toInt file.tellg

/-- The result of `read_file` and the first that many bytes of its buffer, which
keeps its `stale` bytes where the file ends early. -/
def readFile (ifs : Option InFile) (stale : Nat → UInt8) (size : Int) : Int × List UInt8 :=
  match ifs with
  | none => (-1, [])
  | some file =>
    let fsize := min size (toInt file.tellg)
    (fsize, (List.range fsize.toNat).map fun i => file.bytes.getD i (stale i))

/-- The result of `write_file` and what the file holds then.  The state of the
stream is not looked at after the write. -/
def writeFile (ofs : Option OutFile) (buf : List UInt8) : Int × Option (List UInt8) :=
  match ofs with
  | none => (-1, none)
  | some file => (0, some (buf.take file.room))

theorem maxbuf_nonneg : (0 : Int) ≤ maxbuf := Int.natCast_nonneg _

theorem readFile_nonneg_iff {ifs : Option InFile} (stale : Nat → UInt8) {size : Int}
    (hsize : 0 ≤ size) : ¬ (readFile ifs stale size).1 < 0 ↔ Readable ifs := by
  cases ifs with
  | none => simp [readFile, Readable]
  | some file =>
    have hmin : ¬ min size (toInt file.tellg) < 0 ↔ 0 ≤ toInt file.tellg := by omega
    simpa [readFile, Readable] using hmin

theorem readFile_length_le (ifs : Option InFile) (stale : Nat → UInt8) (size : Int) :
    (readFile ifs stale size).2.length ≤ size.toNat := by
  cases ifs with
  | none => exact Nat.zero_le _
  | some file =>
    simp only [readFile, List.length_map, List.length_range]
    omega

end NetLabs.Ftp

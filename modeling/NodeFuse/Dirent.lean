import NodeFuse.Values
import NodeFuse.Lib.LittleEndian

/-!
# Directory entries on the wire

`fuse_add_direntry` is libfuse's and the kernel reads what it writes, so the encoding is a parameter,
`DirentFormat`, with what is documented of it. `DirentFormat.linux` is the format of Linux.
-/

namespace NodeFuse

/-- `FUSE_DIRENT_SIZE` for a name of this many bytes: the header's 24, aligned to 8. -/
def direntSize (namelen : ℕ) : ℕ := (24 + namelen + 7) / 8 * 8

structure Entry where
  name : List UInt8
  ino : UInt64
  off : Int64
  deriving DecidableEq

/-- A name the kernel takes: it is not empty, ends before the terminator, is one path component and
no longer than `FUSE_NAME_MAX`. -/
structure EntryName (name : List UInt8) : Prop where
  ne_nil : name ≠ []
  no_nul : 0 ∉ name
  no_slash : 47 ∉ name
  length_le : name.length ≤ 1024

/-- What `fuse_add_direntry` writes for an entry that fits, and what the kernel reads in a reply. -/
structure DirentFormat where
  encode : List UInt8 → Stat → Int64 → List UInt8
  length_encode : ∀ name stat off, (encode name stat off).length = direntSize name.length
  decode : List UInt8 → List Entry
  decode_nil : decode [] = []
  decode_encode : ∀ {name} stat off rest, EntryName name →
    decode (encode name stat off ++ rest) = ⟨name, stat.ino, off⟩ :: decode rest

theorem le_direntSize (namelen : ℕ) : 24 + namelen ≤ direntSize namelen := by
  unfold direntSize
  omega

/-! ## Linux -/

namespace Dirent

open LittleEndian

/-- A `struct fuse_dirent`, padded with zeros. -/
def encode (name : List UInt8) (stat : Stat) (off : Int64) : List UInt8 :=
  put 8 stat.ino.toNat ++ (put 8 off.toUInt64.toNat ++ (put 4 name.length
    ++ (put 4 ((stat.mode &&& 0o170000) >>> 12).toNat
      ++ (name ++ List.replicate (direntSize name.length - (24 + name.length)) 0))))

/-- The entries up to the first that is cut off or has no name the kernel takes. -/
def decode (bytes : List UInt8) : List Entry :=
  if h : bytes.length < 24 then []
  else
    let namelen := get ((bytes.drop 16).take 4)
    let name := (bytes.drop 24).take namelen
    if bytes.length < direntSize namelen ∨ namelen = 0 ∨ 1024 < namelen ∨ 47 ∈ name then []
    else ⟨name, .ofNat (get (bytes.take 8)), (UInt64.ofNat (get ((bytes.drop 8).take 8))).toInt64⟩
      :: decode (bytes.drop (direntSize namelen))
  termination_by bytes.length
  decreasing_by
    have := le_direntSize (get ((bytes.drop 16).take 4))
    rw [List.length_drop]
    omega

theorem length_encode (name : List UInt8) (stat : Stat) (off : Int64) :
    (encode name stat off).length = direntSize name.length := by
  have := le_direntSize name.length
  unfold encode
  simp only [List.length_append, length_put, List.length_replicate]
  omega

theorem decode_nil : decode [] = [] := by
  rw [decode, dif_pos (by decide)]

theorem decode_encode {name : List UInt8} (stat : Stat) (off : Int64) (rest : List UInt8)
    (h : EntryName name) :
    decode (encode name stat off ++ rest) = ⟨name, stat.ino, off⟩ :: decode rest := by
  have hsize := le_direntSize name.length
  have hlength : (encode name stat off ++ rest).length = direntSize name.length + rest.length := by
    rw [List.length_append, length_encode]
  have hdrop : ∀ n, n ≤ direntSize name.length →
      (encode name stat off ++ rest).drop n = (encode name stat off).drop n ++ rest := by
    intro n hn
    rw [List.drop_append_of_le_length (by rw [length_encode]; exact hn)]
  have hino : (encode name stat off ++ rest).take 8 = put 8 stat.ino.toNat := by
    unfold encode
    rw [List.append_assoc, List.take_left' (length_put _ _)]
  have hoff : ((encode name stat off ++ rest).drop 8).take 8 = put 8 off.toUInt64.toNat := by
    rw [hdrop 8 (by omega)]
    unfold encode
    rw [List.drop_left' (length_put _ _), List.append_assoc, List.take_left' (length_put _ _)]
  have hnamelen : ((encode name stat off ++ rest).drop 16).take 4 = put 4 name.length := by
    rw [hdrop 16 (by omega)]
    unfold encode
    rw [← List.append_assoc, List.drop_left' (by simp), List.append_assoc,
      List.take_left' (length_put _ _)]
  have hname : ((encode name stat off ++ rest).drop 24).take name.length = name := by
    rw [hdrop 24 (by omega)]
    unfold encode
    rw [← List.append_assoc, ← List.append_assoc, ← List.append_assoc,
      List.drop_left' (by simp), List.append_assoc, List.take_left' rfl]
  have hrest : (encode name stat off ++ rest).drop (direntSize name.length) = rest :=
    List.drop_left' (length_encode name stat off)
  have hget : get (put 4 name.length) = name.length :=
    get_put (by have := h.length_le; norm_num; omega)
  have hpos : name.length ≠ 0 := fun h0 => h.ne_nil (List.length_eq_zero_iff.1 h0)
  rw [decode, dif_neg (by rw [hlength]; omega)]
  simp only [hnamelen, hget, hname, hino, hoff, hrest, hlength]
  rw [if_neg, get_put stat.ino.toNat_lt, get_put off.toUInt64.toNat_lt, UInt64.ofNat_toNat,
    UInt64.ofNat_toNat, Int64.toInt64_toUInt64]
  have := h.length_le
  rintro (h1 | h1 | h1 | h1)
  · omega
  · exact hpos h1
  · omega
  · exact h.no_slash h1

end Dirent

def DirentFormat.linux : DirentFormat where
  encode := Dirent.encode
  length_encode := Dirent.length_encode
  decode := Dirent.decode
  decode_nil := Dirent.decode_nil
  decode_encode := Dirent.decode_encode

end NodeFuse

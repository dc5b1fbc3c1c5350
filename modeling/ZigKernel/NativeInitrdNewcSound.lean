import ZigKernel.NativeInitrdNewc
import Mathlib.Data.List.Forall2

/-! The archives that `parse` accepts, byte by byte. Each function of the parser has a rule that says what stands in
the payload when it succeeds, and an equation that it succeeds where that stands. -/

namespace Native

open Zig

namespace InitrdNewc

variable {payload hdr : List UInt8} {start len off : Nat}

/-! ### The profile -/

/-- A hexadecimal digit, in either letter case. -/
def IsDigit (c : UInt8) (d : Nat) : Prop :=
  d < 10 ∧ c.toNat = 0x30 + d ∨ 10 ≤ d ∧ d < 16 ∧ (c.toNat = 0x61 + (d - 10) ∨ c.toNat = 0x41 + (d - 10))

/-- Eight digits, the most significant one first. -/
def Hex8 (field : List UInt8) (v : Nat) : Prop :=
  field.length = 8 ∧ ∃ digits, List.Forall₂ IsDigit field digits ∧ v = digits.foldl (fun v d => 16 * v + d) 0

/-- The thirteen fields in the order of the header. -/
def Record.fields (r : Record) : List Nat :=
  [r.ino, r.mode, r.uid, r.gid, r.nlink, r.mtime, r.filesize, r.devmajor, r.devminor, r.rdevmajor, r.rdevminor,
    r.namesize, r.check]

/-- The magic and the thirteen fields. -/
def IsHeader (hdr : List UInt8) (fields : List Nat) : Prop :=
  ∃ digits : List (List UInt8), hdr = magic ++ digits.flatten ∧ List.Forall₂ Hex8 digits fields

/-- The distance to the next multiple of four. -/
def pad (off : Nat) : Nat := (4 - off % 4) % 4

/-- `S_IFREG` with permission bits, one of which makes the file executable. -/
def IsExecutable (mode : Nat) : Prop := ∃ perm ≤ 0o777, perm &&& 0o111 ≠ 0 ∧ mode = sIfreg + perm

/-- The header of a file of so many bytes. -/
structure InitHeader (hdr : List UInt8) (r : Record) (size : Nat) : Prop where
  header : IsHeader hdr r.fields
  check : r.check = 0
  namesize : r.namesize = initNamesize
  nlink : r.nlink = 1
  mode : IsExecutable r.mode
  filesize : r.filesize = size
  nonempty : 1 ≤ size

/-- The header of the trailer. -/
structure TrailerHeader (hdr : List UInt8) (r : Record) : Prop where
  header : IsHeader hdr r.fields
  check : r.check = 0
  namesize : r.namesize = trailerNamesize
  nlink : r.nlink = 0 ∨ r.nlink = 1
  mode : r.mode = 0
  filesize : r.filesize = 0

/-- An archive of the one-file profile. -/
def IsArchive (payload file : List UInt8) : Prop :=
  ∃ (hdr trailerHdr : List UInt8) (r trailer : Record) (tail : Nat),
    InitHeader hdr r file.length ∧ TrailerHeader trailerHdr trailer ∧
      payload = hdr ++ (initName ++ [0]) ++ (file ++ List.replicate (pad file.length) 0) ++
        (trailerHdr ++ (trailerName ++ [0] ++ List.replicate (pad (headerSize + trailerNamesize)) 0)) ++ List.replicate tail 0

/-! ### Arithmetic and slices -/

theorem add_spec {a b : Nat} : (add a b).Ensures fun sum => sum = a + b := by
  rw [add]
  cases hadd : mathAdd a b with
  | none => exact .error _
  | some sum => exact .ok (mathAdd_eq_some.mp hadd).2.symm

theorem add_of_lt {a b : Nat} (h : a + b < u64Bound) : add a b = .ok (a + b) := by
  rw [add, mathAdd, if_pos h]

theorem and_three (off : Nat) : off &&& 3 = off % 4 := Nat.and_two_pow_sub_one_eq_mod off 2

theorem align4_spec : (align4 off).Ensures fun next => next = off + pad off := by
  simp only [align4, and_three, pad]
  by_cases hrem : off % 4 = 0
  · rw [if_pos hrem]
    exact .ok (by omega)
  · rw [if_neg hrem]
    exact add_spec.mono fun next hnext => by omega

theorem align4_of_lt (h : off + 4 ≤ u64Bound) : align4 off = .ok (off + pad off) := by
  simp only [align4, and_three, pad]
  by_cases hrem : off % 4 = 0
  · rw [if_pos hrem, hrem]
    rfl
  · rw [if_neg hrem, add_of_lt (by omega), Nat.mod_eq_of_lt (show 4 - off % 4 < 4 by omega)]

theorem sliceRange_spec : (sliceRange payload start len).Ensures fun s => s.length = len ∧ Stands payload start s := by
  rw [sliceRange]
  refine add_spec.bind fun stop hstop => .guard fun hle => ⟨?_, fun s hs => ?_⟩
  · rw [slice, if_pos ⟨by omega, Nat.le_of_not_lt hle⟩]
    simp
  · obtain ⟨hlength, hstands⟩ := slice_eq_ok.mp hs
    exact ⟨by omega, hstands⟩

theorem sliceRange_of_stands {s : List UInt8} (hpayload : payload.length ≤ maxPayload) (h : Stands payload start s)
    (hlen : s.length = len) : sliceRange payload start len = .ok s := by
  have hmax : maxPayload < u64Bound := by decide
  have hle := h.length_le
  rw [sliceRange, add_of_lt (by omega), Outcome.ok_bind, if_neg (by omega)]
  exact slice_eq_ok.mpr ⟨by omega, h⟩

theorem requireZero_spec {stop : Nat} : (requireZero payload start stop).Ensures fun _ =>
    Stands payload start (List.replicate (stop - start) 0) := by
  rw [requireZero]
  refine .guard fun hle => .guard fun hle' => ?_
  have hslice := slice_of_le (ε := Error) (Nat.le_of_not_lt hle) (Nat.le_of_not_lt hle')
  obtain ⟨-, hstands⟩ := slice_eq_ok.mp hslice
  rw [hslice, Outcome.ok_bind]
  refine .guard fun hzero => .ok ?_
  have hlength := length_slice (Nat.le_of_not_lt hle) (Nat.le_of_not_lt hle')
  rw [← List.eq_replicate_iff.mpr ⟨hlength, fun b hb => by_contra fun hne => hzero ⟨b, hb, hne⟩⟩]
  exact hstands

theorem requireZero_of_stands {n : Nat} (h : Stands payload start (List.replicate n 0)) :
    requireZero payload start (start + n) = .ok () := by
  have hle := h.length_le
  rw [List.length_replicate] at hle
  have hslice : (slice payload start (start + n) : Outcome Error (List UInt8)) = .ok (List.replicate n 0) :=
    slice_eq_ok.mpr ⟨by rw [List.length_replicate], h⟩
  rw [requireZero, if_neg (by omega), if_neg (by omega), hslice, Outcome.ok_bind, if_neg]
  rintro ⟨b, hb, hne⟩
  exact hne (List.eq_of_mem_replicate hb)

/-! ### Hexadecimal fields -/

theorem hexVal_eq_ok {c : UInt8} {d : Nat} : hexVal c = .ok d ↔ IsDigit c d := by
  unfold hexVal IsDigit
  split_ifs <;> simp only [Outcome.ok.injEq, false_iff] <;> omega

theorem hexVal_ne_trap {c : UInt8} : hexVal c ≠ .trap := by
  unfold hexVal
  split_ifs <;> nofun

theorem IsDigit.lt {c : UInt8} {d : Nat} (h : IsDigit c d) : d < 16 := by
  unfold IsDigit at h
  omega

/-- The shift makes room for the digit, and drops nothing while at most seven digits are read. -/
theorem shift_or {v d : Nat} (hv : v < 16 ^ 7) (hd : d < 16) : (v <<< 4) % u32Bound ||| d = 16 * v + d := by
  have hbound : u32Bound = 16 ^ 8 := rfl
  have hshift : v <<< 4 = v * 16 := Nat.shiftLeft_eq v 4
  rw [Nat.mod_eq_of_lt (by omega), ← Nat.shiftLeft_add_eq_or_of_lt hd, hshift, Nat.mul_comm]

theorem hexDigits_eq_ok {field : List UInt8} {v w k : Nat} (hv : v < 16 ^ k) (hk : k + field.length ≤ 8) :
    hexDigits v field = .ok w ↔
      ∃ digits, List.Forall₂ IsDigit field digits ∧ w = digits.foldl (fun v d => 16 * v + d) v := by
  induction field generalizing v k with
  | nil =>
      simp only [hexDigits, Outcome.ok.injEq, List.forall₂_nil_left_iff, exists_eq_left, List.foldl_nil]
      exact eq_comm
  | cons c rest ih =>
      rw [List.length_cons] at hk
      have hv7 : v < 16 ^ 7 := Nat.lt_of_lt_of_le hv (Nat.pow_le_pow_right (by decide) (by omega))
      rw [hexDigits, Outcome.bind_eq_ok_iff]
      have hrest {d : Nat} (hd : d < 16) : hexDigits ((v <<< 4) % u32Bound ||| d) rest = .ok w ↔
          ∃ digits, List.Forall₂ IsDigit rest digits ∧ w = digits.foldl (fun v d => 16 * v + d) (16 * v + d) := by
        rw [shift_or hv7 hd]
        refine ih (k := k + 1) ?_ (by omega)
        rw [Nat.pow_succ]
        omega
      constructor
      · rintro ⟨d, hd, h⟩
        rw [hexVal_eq_ok] at hd
        obtain ⟨digits, hdigits, hw⟩ := (hrest hd.lt).mp h
        exact ⟨d :: digits, .cons hd hdigits, hw⟩
      · rintro ⟨_, hdigits, hw⟩
        cases hdigits with
        | cons hd hdigits => exact ⟨_, hexVal_eq_ok.mpr hd, (hrest hd.lt).mpr ⟨_, hdigits, hw⟩⟩

theorem hexDigits_ne_trap {field : List UInt8} {v : Nat} : hexDigits v field ≠ .trap := by
  induction field generalizing v with
  | nil => nofun
  | cons c rest ih => exact Outcome.bind_ne_trap hexVal_ne_trap fun _ _ => ih

theorem parseHex8_eq_ok {field : List UInt8} {v : Nat} (h : field.length = 8) : parseHex8 field = .ok v ↔ Hex8 field v := by
  have hslice : (slice field 0 8 : Outcome Error (List UInt8)) = .ok field :=
    slice_eq_ok.mpr ⟨by omega, [], [], (List.append_nil _).symm, rfl⟩
  rw [parseHex8, hslice, Outcome.ok_bind, hexDigits_eq_ok (k := 0) (by decide) (by omega), Hex8, and_iff_right h]

theorem parseHex8_ne_trap {field : List UInt8} (h : field.length = 8) : parseHex8 field ≠ .trap := by
  rw [parseHex8, slice_of_le (by omega) (by omega)]
  exact hexDigits_ne_trap

theorem hexField_spec {i : Nat} (h : 14 + 8 * i ≤ hdr.length) :
    (hexField hdr i).Ensures fun v => ∃ field, Hex8 field v ∧ Stands hdr (6 + 8 * i) field := by
  have hslice := slice_of_le (ε := Error) (show 6 + 8 * i ≤ 14 + 8 * i by omega) h
  obtain ⟨hlength, hstands⟩ := slice_eq_ok.mp hslice
  have hlength : ((hdr.drop (6 + 8 * i)).take (14 + 8 * i - (6 + 8 * i))).length = 8 := by omega
  rw [hexField, hslice]
  exact ⟨parseHex8_ne_trap hlength, fun v hv => ⟨_, (parseHex8_eq_ok hlength).mp hv, hstands⟩⟩

theorem hexField_of_stands {i v : Nat} {field : List UInt8} (hfield : Hex8 field v) (h : Stands hdr (6 + 8 * i) field) :
    hexField hdr i = .ok v := by
  have hslice : (slice hdr (6 + 8 * i) (14 + 8 * i) : Outcome Error (List UInt8)) = .ok field :=
    slice_eq_ok.mpr ⟨by rw [hfield.1]; omega, h⟩
  rw [hexField, hslice, Outcome.ok_bind]
  exact (parseHex8_eq_ok hfield.1).mpr hfield

/-! ### Records -/

/-- The fields stand in the header one after another. -/
def FieldsStand (hdr : List UInt8) (lo : Nat) : List Nat → Prop
  | [] => lo ≤ hdr.length
  | v :: rest => (∃ field, Hex8 field v ∧ Stands hdr lo field) ∧ FieldsStand hdr (lo + 8) rest

theorem fieldsStand_iff {lo : Nat} {fields : List Nat} :
    FieldsStand hdr lo fields ↔ ∃ digits, List.Forall₂ Hex8 digits fields ∧ Stands hdr lo digits.flatten := by
  induction fields generalizing lo with
  | nil =>
      simp only [FieldsStand, List.forall₂_nil_right_iff, exists_eq_left, List.flatten_nil, stands_nil]
  | cons v rest ih =>
      rw [FieldsStand, ih]
      constructor
      · rintro ⟨⟨field, hfield, hstands⟩, digits, hdigits, hrest⟩
        refine ⟨field :: digits, .cons hfield hdigits, ?_⟩
        rw [List.flatten_cons, stands_append, hfield.1]
        exact ⟨hstands, hrest⟩
      · rintro ⟨_, hdigits, hstands⟩
        cases hdigits with
        | cons hfield hdigits =>
            rw [List.flatten_cons, stands_append, hfield.1] at hstands
            exact ⟨⟨_, hfield, hstands.1⟩, _, hdigits, hstands.2⟩

theorem hexField_of_fieldsStand {lo j : Nat} {fields : List Nat} (h : FieldsStand hdr lo fields) (hlo : lo = 6 + 8 * j)
    (i : Nat) (hi : i < fields.length) : hexField hdr (j + i) = .ok fields[i] := by
  induction fields generalizing lo j i with
  | nil => exact absurd hi (Nat.not_lt_zero i)
  | cons v rest ih =>
      obtain ⟨⟨field, hfield, hstands⟩, hrest⟩ := h
      cases i with
      | zero => exact hexField_of_stands hfield (hlo ▸ hstands)
      | succ i =>
          rw [List.length_cons, Nat.succ_lt_succ_iff] at hi
          have hnext := ih (j := j + 1) hrest (by omega) i hi
          rwa [Nat.add_assoc, Nat.add_comm 1 i] at hnext

theorem length_flatten_hex8 {digits : List (List UInt8)} {fields : List Nat} (h : List.Forall₂ Hex8 digits fields) :
    digits.flatten.length = 8 * fields.length := by
  induction h with
  | nil => rfl
  | cons hfield _ ih =>
      rw [List.flatten_cons, List.length_append, hfield.1, ih, List.length_cons]
      omega

theorem length_of_isHeader {r : Record} (h : IsHeader hdr r.fields) : hdr.length = headerSize := by
  obtain ⟨digits, rfl, hdigits⟩ := h
  rw [List.length_append, length_flatten_hex8 hdigits]
  rfl

theorem foldl_digits_lt {field : List UInt8} {digits : List Nat} (h : List.Forall₂ IsDigit field digits) {v k : Nat}
    (hv : v < 16 ^ k) : digits.foldl (fun v d => 16 * v + d) v < 16 ^ (k + field.length) := by
  induction h generalizing v k with
  | nil => exact hv
  | @cons c d rest digits hd _ ih =>
      have hlt := hd.lt
      have hnext := ih (v := 16 * v + d) (k := k + 1) (by rw [Nat.pow_succ]; omega)
      rw [List.length_cons, Nat.add_comm rest.length, ← Nat.add_assoc]
      exact hnext

theorem isHeader_lt {fields : List Nat} (h : IsHeader hdr fields) : ∀ v ∈ fields, v < u32Bound := by
  obtain ⟨digits, -, hdigits⟩ := h
  induction hdigits with
  | nil => exact fun v hv => absurd hv List.not_mem_nil
  | cons hfield _ ih =>
      obtain ⟨hlength, ds, hds, rfl⟩ := hfield
      have hlt := foldl_digits_lt hds (k := 0) (v := 0) (by decide)
      rw [hlength] at hlt
      exact List.forall_mem_cons.mpr ⟨hlt, ih⟩

/-- A header is the magic and the fields behind it. -/
theorem isHeader_iff {r : Record} :
    IsHeader hdr r.fields ↔ hdr.length = headerSize ∧ Stands hdr 0 magic ∧ FieldsStand hdr 6 r.fields := by
  have hmagic : magic.length = 6 := rfl
  have hsize : headerSize = 6 + 8 * r.fields.length := rfl
  rw [fieldsStand_iff]
  constructor
  · intro h
    refine ⟨length_of_isHeader h, ?_⟩
    obtain ⟨digits, rfl, hdigits⟩ := h
    exact ⟨⟨[], digits.flatten, rfl, rfl⟩, digits, hdigits, magic, [], (List.append_nil _).symm, rfl⟩
  · rintro ⟨hlength, hstands, digits, hdigits, hrest⟩
    refine ⟨digits, ?_, hdigits⟩
    obtain ⟨pre, post, hhdr, hpre⟩ := stands_append.mpr ⟨hstands, hmagic ▸ hrest⟩
    rw [List.length_eq_zero_iff.mp hpre, List.nil_append] at hhdr
    have hpost : post = [] := by
      rw [hhdr, List.length_append, List.length_append, length_flatten_hex8 hdigits, hmagic] at hlength
      exact List.length_eq_zero_iff.mp (by omega)
    rw [hhdr, hpost, List.append_nil]

/-- The last byte of a name, and the bytes in front of it. -/
theorem index_concat (body : List UInt8) (last : UInt8) :
    (index (body ++ [last]) ((body ++ [last]).length - 1) : Outcome Error UInt8) = .ok last := by
  rw [index, List.length_append, List.length_singleton, Nat.add_sub_cancel, List.getElem?_concat_length]

theorem slice_concat (body : List UInt8) (last : UInt8) :
    (slice (body ++ [last]) 0 ((body ++ [last]).length - 1) : Outcome Error (List UInt8)) = .ok body := by
  rw [List.length_append, List.length_singleton, Nat.add_sub_cancel]
  exact slice_eq_ok.mpr ⟨Nat.zero_add _, [], [last], rfl, rfl⟩

/-- The record with its name, when the name and the padding stand behind the header. -/
def named (start : Nat) (r : Record) (name : List UInt8) : Record :=
  { r with name, dataOff := start + headerSize + r.namesize + pad (start + headerSize + r.namesize) }

theorem parseName_spec {r : Record} :
    (parseName payload start r).Ensures fun r' => ∃ name, r' = named start r name ∧ r.check = 0 ∧
      r.namesize = name.length + 1 ∧ 0 ∉ name ∧ Stands payload (start + headerSize)
        (name ++ [0] ++ List.replicate (pad (start + headerSize + r.namesize)) 0) := by
  rw [parseName]
  refine .guard fun hcheck => .guard fun hnamesize => add_spec.bind fun nameOff hnameOff => ?_
  refine sliceRange_spec.bind fun nameRaw ⟨hlength, hraw⟩ => ?_
  obtain ⟨body, last, rfl⟩ : ∃ body last, nameRaw = body ++ [last] := by
    rcases List.eq_nil_or_concat nameRaw with rfl | ⟨body, last, hconcat⟩
    · exact absurd hlength.symm hnamesize
    · exact ⟨body, last, hconcat.trans List.concat_eq_append⟩
  rw [index_concat, Outcome.ok_bind]
  refine .guard fun hlast => ?_
  rw [slice_concat, Outcome.ok_bind]
  refine .guard fun hnul => add_spec.bind fun nameEnd hnameEnd => align4_spec.bind fun dataOff hdataOff => ?_
  refine requireZero_spec.bind fun _ hzero => .ok ⟨body, ?_, not_not.mp hcheck, ?_, hnul, ?_⟩
  · rw [named, hdataOff, hnameEnd, hnameOff]
  · rw [← hlength, List.length_append, List.length_singleton]
  · rw [hnameEnd, hnameOff] at hdataOff
    rw [not_not.mp hlast, hnameOff] at hraw
    rw [stands_append]
    rw [not_not.mp hlast] at hlength
    rw [hlength]
    rw [hdataOff, hnameEnd, hnameOff, Nat.add_sub_cancel_left] at hzero
    exact ⟨hraw, hzero⟩

theorem parseName_of_stands {r : Record} {name : List UInt8} (hpayload : payload.length ≤ maxPayload) (hcheck : r.check = 0)
    (hnamesize : r.namesize = name.length + 1) (hname : 0 ∉ name)
    (h : Stands payload (start + headerSize) (name ++ [0] ++ List.replicate (pad (start + headerSize + r.namesize)) 0)) :
    parseName payload start r = .ok (named start r name) := by
  have hmax : maxPayload + 4 < u64Bound := by decide
  have hlength : (name ++ [0]).length = r.namesize := by rw [List.length_append, List.length_singleton, hnamesize]
  obtain ⟨hraw, hzero⟩ := stands_append.mp h
  have hle := hraw.length_le
  rw [hlength] at hle hzero
  rw [parseName, if_neg (not_not.mpr hcheck), if_neg (by omega), add_of_lt (by omega), Outcome.ok_bind,
    sliceRange_of_stands hpayload hraw hlength, Outcome.ok_bind, index_concat, Outcome.ok_bind, if_neg (not_not.mpr rfl),
    slice_concat, Outcome.ok_bind, if_neg hname, add_of_lt (by omega), Outcome.ok_bind, align4_of_lt (by omega),
    Outcome.ok_bind, requireZero_of_stands hzero]
  rfl

/-- A record at an offset: the header, the name with its NUL, and zeros up to the data. -/
def IsRecord (bytes : List UInt8) (start : Nat) (r : Record) : Prop :=
  ∃ hdr, IsHeader hdr r.fields ∧ r.check = 0 ∧ r.namesize = r.name.length + 1 ∧ 0 ∉ r.name ∧
    r.dataOff = start + headerSize + r.namesize + pad (start + headerSize + r.namesize) ∧
    bytes = hdr ++ (r.name ++ [0] ++ List.replicate (pad (start + headerSize + r.namesize)) 0)

theorem parseHeaderName_spec : (parseHeaderName payload start).Ensures fun r =>
    ∃ bytes, IsRecord bytes start r ∧ Stands payload start bytes := by
  rw [parseHeaderName]
  refine sliceRange_spec.bind fun hdr ⟨hlength, hhdr⟩ => ?_
  have hsize : headerSize = 110 := rfl
  have hslice : (slice hdr 0 6 : Outcome Error (List UInt8)) = .ok _ := slice_of_le (by omega) (by omega)
  rw [hslice, Outcome.ok_bind]
  refine .guard fun _ => .guard fun hmagic => ?_
  have hmagic : Stands hdr 0 magic := (slice_eq_ok.mp (hslice.trans (congrArg Outcome.ok (not_not.mp hmagic)))).2
  refine (hexField_spec (by omega)).bind fun ino hino => ?_
  refine (hexField_spec (by omega)).bind fun mode hmode => ?_
  refine (hexField_spec (by omega)).bind fun uid huid => ?_
  refine (hexField_spec (by omega)).bind fun gid hgid => ?_
  refine (hexField_spec (by omega)).bind fun nlink hnlink => ?_
  refine (hexField_spec (by omega)).bind fun mtime hmtime => ?_
  refine (hexField_spec (by omega)).bind fun filesize hfilesize => ?_
  refine (hexField_spec (by omega)).bind fun devmajor hdevmajor => ?_
  refine (hexField_spec (by omega)).bind fun devminor hdevminor => ?_
  refine (hexField_spec (by omega)).bind fun rdevmajor hrdevmajor => ?_
  refine (hexField_spec (by omega)).bind fun rdevminor hrdevminor => ?_
  refine (hexField_spec (by omega)).bind fun namesize hnamesize' => ?_
  refine (hexField_spec (by omega)).bind fun check hcheck' => ?_
  refine parseName_spec.mono ?_
  rintro _ ⟨name, rfl, hcheck, hnamesize, hname, hstands⟩
  have hfields : FieldsStand hdr 6 [ino, mode, uid, gid, nlink, mtime, filesize, devmajor, devminor, rdevmajor, rdevminor,
      namesize, check] :=
    ⟨hino, hmode, huid, hgid, hnlink, hmtime, hfilesize, hdevmajor, hdevminor, hrdevmajor, hrdevminor, hnamesize', hcheck',
      Nat.le_of_eq hlength.symm⟩
  exact ⟨_, ⟨hdr, isHeader_iff.mpr ⟨hlength, hmagic, hfields⟩, hcheck, hnamesize, hname, rfl, rfl⟩,
    stands_append.mpr ⟨hhdr, hlength ▸ hstands⟩⟩

theorem parseHeaderName_of_stands {r : Record} {bytes : List UInt8} (hpayload : payload.length ≤ maxPayload)
    (hrecord : IsRecord bytes start r) (h : Stands payload start bytes) : parseHeaderName payload start = .ok r := by
  obtain ⟨hdr, hheader, hcheck, hnamesize, hname, hdataOff, rfl⟩ := hrecord
  obtain ⟨hlength, hmagic, hfields⟩ := isHeader_iff.mp hheader
  obtain ⟨hhdr, hrest⟩ := stands_append.mp h
  have hslice : (slice hdr 0 6 : Outcome Error (List UInt8)) = .ok magic := slice_eq_ok.mpr ⟨rfl, hmagic⟩
  have hfield (i : Nat) (hi : i < 13) : hexField hdr i = .ok (r.fields.get ⟨i, hi⟩) :=
    (congrArg _ (Nat.zero_add i)).symm.trans (hexField_of_fieldsStand hfields rfl i hi)
  rw [parseHeaderName, sliceRange_of_stands hpayload hhdr hlength, Outcome.ok_bind, hslice, Outcome.ok_bind,
    if_neg (by decide), if_neg (not_not.mpr rfl), hfield 0 (by decide), Outcome.ok_bind, hfield 1 (by decide), Outcome.ok_bind,
    hfield 2 (by decide), Outcome.ok_bind, hfield 3 (by decide), Outcome.ok_bind, hfield 4 (by decide), Outcome.ok_bind,
    hfield 5 (by decide), Outcome.ok_bind, hfield 6 (by decide), Outcome.ok_bind, hfield 7 (by decide), Outcome.ok_bind,
    hfield 8 (by decide), Outcome.ok_bind, hfield 9 (by decide), Outcome.ok_bind, hfield 10 (by decide), Outcome.ok_bind,
    hfield 11 (by decide), Outcome.ok_bind, hfield 12 (by decide), Outcome.ok_bind]
  refine (parseName_of_stands hpayload hcheck hnamesize hname (hlength ▸ hrest)).trans (congrArg Outcome.ok ?_)
  show { r with dataOff := start + headerSize + r.namesize + pad (start + headerSize + r.namesize) } = r
  rw [← hdataOff]

theorem takeFile_spec {r : Record} : (takeFile payload r).Ensures fun (data, next) =>
    data.length = r.filesize ∧ next = r.dataOff + r.filesize + pad (r.dataOff + r.filesize) ∧
      Stands payload r.dataOff (data ++ List.replicate (pad (r.dataOff + r.filesize)) 0) := by
  rw [takeFile]
  refine sliceRange_spec.bind fun data ⟨hlength, hdata⟩ => add_spec.bind fun dataEnd hdataEnd => ?_
  refine align4_spec.bind fun next hnext => requireZero_spec.bind fun _ hzero => .ok ⟨hlength, ?_, ?_⟩
  · rw [hnext, hdataEnd]
  · rw [hnext, hdataEnd, Nat.add_sub_cancel_left] at hzero
    exact stands_append.mpr ⟨hdata, hlength ▸ hzero⟩

theorem takeFile_of_stands {r : Record} {data : List UInt8} (hpayload : payload.length ≤ maxPayload)
    (hlength : data.length = r.filesize)
    (h : Stands payload r.dataOff (data ++ List.replicate (pad (r.dataOff + r.filesize)) 0)) :
    takeFile payload r = .ok (data, r.dataOff + r.filesize + pad (r.dataOff + r.filesize)) := by
  have hmax : maxPayload + 4 < u64Bound := by decide
  obtain ⟨hdata, hzero⟩ := stands_append.mp h
  have hle := hdata.length_le
  rw [hlength] at hle hzero
  rw [takeFile, sliceRange_of_stands hpayload hdata hlength, Outcome.ok_bind, add_of_lt (by omega), Outcome.ok_bind,
    align4_of_lt (by omega), Outcome.ok_bind, requireZero_of_stands hzero]
  rfl

/-! ### The checks of the two records -/

/-- The three tests of the mode leave the regular files with permission bits. -/
theorem isExecutable_iff {mode : Nat} (hmode : mode < u32Bound) : IsExecutable mode ↔
    mode &&& sIfmt = sIfreg ∧ mode &&& notU32 (sIfreg ||| sIrwxugo) = 0 ∧ mode &&& (sIxusr ||| sIxgrp ||| sIxoth) ≠ 0 := by
  constructor
  · have hall : ∀ perm : Fin 512, perm.val &&& 0o111 ≠ 0 → (sIfreg + perm.val) &&& sIfmt = sIfreg ∧
        (sIfreg + perm.val) &&& notU32 (sIfreg ||| sIrwxugo) = 0 ∧
        (sIfreg + perm.val) &&& (sIxusr ||| sIxgrp ||| sIxoth) ≠ 0 := by decide +kernel
    rintro ⟨perm, hperm, hexec, rfl⟩
    exact hall ⟨perm, Nat.lt_succ_of_le hperm⟩ hexec
  · rintro ⟨hfmt, hbits, hexec⟩
    have hnot : notU32 (sIfreg ||| sIrwxugo) = 2 ^ 32 - ((sIfreg ||| sIrwxugo) + 1) := rfl
    -- no bit outside the mask is set
    have hmask : mode = mode &&& (sIfreg ||| sIrwxugo) := by
      refine Nat.eq_of_testBit_eq fun i => ?_
      have hbit : (mode &&& notU32 (sIfreg ||| sIrwxugo)).testBit i = false := by rw [hbits, Nat.zero_testBit]
      rw [Nat.testBit_and, hnot, Nat.testBit_two_pow_sub_succ (by decide)] at hbit
      rw [Nat.testBit_and]
      by_cases hi : i < 32
      · rw [decide_eq_true hi, Bool.true_and] at hbit
        cases hmode' : mode.testBit i
        · rfl
        · rw [hmode', Bool.true_and, Bool.not_eq_false'] at hbit
          rw [hbit, Bool.and_true]
      · have hhigh : mode.testBit i = false :=
          Nat.testBit_lt_two_pow (Nat.lt_of_lt_of_le hmode (Nat.pow_le_pow_right (by decide) (Nat.le_of_not_lt hi)))
        rw [hhigh, Bool.false_and]
    have hreg : mode &&& sIfreg = sIfreg := by
      have hsub : sIfmt &&& sIfreg = sIfreg := by decide
      calc mode &&& sIfreg = mode &&& (sIfmt &&& sIfreg) := by rw [hsub]
        _ = mode &&& sIfmt &&& sIfreg := (Nat.and_assoc ..).symm
        _ = sIfreg := by rw [hfmt, Nat.and_self]
    have hperm : mode &&& sIrwxugo = mode % 2 ^ 9 := Nat.and_two_pow_sub_one_eq_mod mode 9
    have hlt : mode % 2 ^ 9 < 2 ^ 9 := Nat.mod_lt _ (by decide)
    have hsum : mode = sIfreg + mode % 2 ^ 9 := by
      have hor : sIfreg + mode % 2 ^ 9 = sIfreg ||| mode % 2 ^ 9 :=
        Nat.two_pow_add_eq_or_of_lt (i := 15) (Nat.lt_trans hlt (by decide)) 1
      rw [hor, ← hperm, ← hreg, ← Nat.and_or_distrib_left]
      exact hmask
    refine ⟨mode % 2 ^ 9, Nat.le_of_lt_succ hlt, ?_, hsum⟩
    have hsub : sIrwxugo &&& 0o111 = sIxusr ||| sIxgrp ||| sIxoth := by decide
    rwa [← hperm, Nat.and_assoc, hsub]

theorem checkInitMode_spec {r : Record} : (checkInitMode r).Ensures fun _ =>
    (r.mode &&& sIfmt = sIfreg ∧ r.mode &&& notU32 (sIfreg ||| sIrwxugo) = 0 ∧
      r.mode &&& (sIxusr ||| sIxgrp ||| sIxoth) ≠ 0) ∧ r.nlink = 1 ∧ r.filesize ≠ 0 := by
  rw [checkInitMode]
  refine .guard fun hfmt => .guard fun hbits => .guard fun hexec => .guard fun hnlink => .guard fun hsize => .guard fun _ => ?_
  refine add_spec.bind fun _ _ => .guard fun _ => .ok ⟨⟨not_not.mp hfmt, not_not.mp hbits, hexec⟩, not_not.mp hnlink, hsize⟩

theorem checkTrailer_spec {r : Record} : (checkTrailer r).Ensures fun _ =>
    r.filesize = 0 ∧ r.mode = 0 ∧ (r.nlink = 0 ∨ r.nlink = 1) := by
  rw [checkTrailer]
  refine .guard fun hsize => .guard fun hmode => .guard fun hnlink => .ok ⟨not_not.mp hsize, not_not.mp hmode, ?_⟩
  omega

theorem classifyFirstName_spec {name : List UInt8} : (classifyFirstName name).Ensures fun _ => name = initName := by
  rw [classifyFirstName]
  by_cases hname : name = initName
  · rw [if_pos hname]
    exact .ok hname
  · rw [if_neg hname]
    exact .guard fun _ => .guard fun _ => .error _

theorem classifySecondName_spec {name : List UInt8} : (classifySecondName name).Ensures fun _ => name = trailerName := by
  rw [classifySecondName]
  by_cases hname : name = trailerName
  · rw [if_pos hname]
    exact .ok hname
  · rw [if_neg hname]
    exact .guard fun _ => .guard fun _ => .error _

theorem checkTail_spec {i : Nat} : (checkTail payload i).Ensures fun _ => ∀ b ∈ payload.drop i, b = 0 := by
  rw [checkTail]
  exact .guard fun hzero => .ok fun b hb => by_contra fun hne => hzero ⟨b, hb, hne⟩

/-! ### The archive -/

/-- The bytes of the trailer record, whatever its position. -/
def trailerBytes (hdr : List UInt8) : List UInt8 :=
  hdr ++ (trailerName ++ [0] ++ List.replicate (pad (headerSize + trailerNamesize)) 0)

theorem pad_add {a : Nat} (ha : a % 4 = 0) (b : Nat) : pad (a + b) = pad b := by
  unfold pad
  omega

theorem length_trailerBytes (h : hdr.length = headerSize) : (trailerBytes hdr).length = 124 := by
  rw [trailerBytes, List.length_append, h]
  rfl

theorem parseTrailer_spec {next : Nat} (hnext : next % 4 = 0) : (parseTrailer payload next).Ensures fun _ =>
    ∃ hdr r, TrailerHeader hdr r ∧ Stands payload next (trailerBytes hdr) ∧
      ∀ b ∈ payload.drop (next + (trailerBytes hdr).length), b = 0 := by
  rw [parseTrailer]
  refine .guard fun _ => (parseHeaderName_spec.mapError _).bind fun r ⟨bytes, hrecord, hstands⟩ => ?_
  refine classifySecondName_spec.bind fun _ hname => .guard fun hnamesize => checkTrailer_spec.bind ?_
  rintro _ ⟨hfilesize, hmode, hnlink⟩
  refine (takeFile_spec.mapError _).bind fun ⟨data, tail⟩ ⟨_, htail, _⟩ => checkTail_spec.mono fun _ hzero => ?_
  obtain ⟨hdr, hheader, hcheck, -, -, hdataOff, rfl⟩ := hrecord
  have hnamesize := not_not.mp hnamesize
  rw [hnamesize, Nat.add_assoc next, pad_add hnext, Nat.add_assoc next] at hdataOff
  rw [hname, hnamesize, Nat.add_assoc next, pad_add hnext] at hstands
  refine ⟨hdr, r, ⟨hheader, hcheck, hnamesize, hnlink, hmode, hfilesize⟩, hstands, ?_⟩
  have hpad : headerSize + trailerNamesize + pad (headerSize + trailerNamesize) = 124 := rfl
  have haligned : pad r.dataOff = 0 := by
    rw [hdataOff, hpad, pad_add hnext]
    rfl
  rw [hfilesize, Nat.add_zero, haligned, Nat.add_zero, hdataOff, hpad] at htail
  rw [length_trailerBytes (length_of_isHeader hheader), ← htail]
  exact hzero

theorem parseTrailer_of_stands {next : Nat} {r : Record} (hpayload : payload.length ≤ maxPayload)
    (hnext : next % 4 = 0) (hheader : TrailerHeader hdr r) (h : Stands payload next (trailerBytes hdr))
    (htail : ∀ b ∈ payload.drop (next + (trailerBytes hdr).length), b = 0) : parseTrailer payload next = .ok () := by
  have hlength := length_trailerBytes (length_of_isHeader hheader.header)
  have hle := h.length_le
  have hpad : headerSize + trailerNamesize + pad (headerSize + trailerNamesize) = 124 := rfl
  generalize hr' : ({ r with name := trailerName, dataOff := next + 124 } : Record) = r'
  have hrecord : IsRecord (trailerBytes hdr) next r' := by
    rw [← hr']
    refine ⟨hdr, hheader.header, hheader.check, hheader.namesize, (by decide : 0 ∉ trailerName), ?_, ?_⟩
    · show next + 124 = next + headerSize + r.namesize + pad (next + headerSize + r.namesize)
      rw [hheader.namesize, Nat.add_assoc next, pad_add hnext, Nat.add_assoc, hpad]
    · show trailerBytes hdr = hdr ++ (trailerName ++ [0] ++ List.replicate (pad (next + headerSize + r.namesize)) 0)
      rw [hheader.namesize, Nat.add_assoc next, pad_add hnext]
      rfl
  have hfilesize : r'.filesize = 0 := by rw [← hr']; exact hheader.filesize
  have hdataOff : r'.dataOff = next + 124 := by rw [← hr']
  have haligned : pad (r'.dataOff + r'.filesize) = 0 := by
    rw [hfilesize, hdataOff, Nat.add_zero, pad_add hnext]
    rfl
  have hdata : Stands payload r'.dataOff ([] ++ List.replicate (pad (r'.dataOff + r'.filesize)) 0) := by
    rw [haligned, hdataOff]
    exact stands_nil.mpr (by omega)
  have htrailer : checkTrailer r' = .ok () := by
    have hnlink : ¬(r'.nlink ≠ 0 ∧ r'.nlink ≠ 1) := by
      rw [← hr']
      have := hheader.nlink
      show ¬(r.nlink ≠ 0 ∧ r.nlink ≠ 1)
      omega
    rw [checkTrailer, if_neg (not_not.mpr hfilesize), if_neg (by rw [← hr']; exact not_not.mpr hheader.mode), if_neg hnlink]
  have hname : classifySecondName r'.name = .ok () := by
    rw [← hr']
    exact if_pos rfl
  have hnamesize : r'.namesize = trailerNamesize := by rw [← hr']; exact hheader.namesize
  have hzero : checkTail payload (next + 124) = .ok () := by
    rw [hlength] at htail
    refine if_neg ?_
    rintro ⟨b, hb, hne⟩
    exact hne (htail b hb)
  have hnone : ([] : List UInt8).length = r'.filesize := hfilesize.symm
  have hfile : takeFile payload r' = .ok ([], next + 124) := by
    rw [takeFile_of_stands hpayload hnone hdata, haligned, hfilesize, hdataOff]
  rw [parseTrailer, if_neg (by omega), parseHeaderName_of_stands hpayload hrecord h]
  simp only [Outcome.mapError, Outcome.ok_bind, hname, hfile, htrailer]
  rw [if_neg (not_not.mpr hnamesize)]
  exact hzero

/-- The entry of a file. -/
def entryOf (file : List UInt8) : Entry := { name := initName, bytes := file, offset := 116, length := file.length }

/-- The bytes in front of the trailer. -/
def initBytes (hdr file : List UInt8) : List UInt8 :=
  hdr ++ (initName ++ [0]) ++ (file ++ List.replicate (pad file.length) 0)

theorem length_front (h : hdr.length = headerSize) : 0 + (hdr ++ (initName ++ [0])).length = 116 := by
  rw [List.length_append, h]
  rfl

theorem length_initBytes (h : hdr.length = headerSize) (file : List UInt8) :
    (initBytes hdr file).length = 116 + file.length + pad file.length := by
  have hfront := length_front h
  have hfile : (file ++ List.replicate (pad file.length) (0 : UInt8)).length = file.length + pad file.length := by
    rw [List.length_append, List.length_replicate]
  rw [initBytes, List.length_append, hfile]
  omega

theorem parse_spec (payload : List UInt8) : (parse payload).Ensures fun e =>
    payload.length ≤ maxPayload ∧ IsArchive payload e.bytes ∧ e = entryOf e.bytes ∧ Stands payload e.offset e.bytes := by
  rw [parse]
  refine .guard fun hpayload => .guard fun _ => parseHeaderName_spec.bind fun r ⟨bytes, hrecord, hstands⟩ => ?_
  refine classifyFirstName_spec.bind fun _ hname => .guard fun hnamesize => checkInitMode_spec.bind ?_
  rintro _ ⟨hmode, hnlink, hfilesize⟩
  refine takeFile_spec.bind fun ⟨data, next⟩ ⟨hlength, hnext, hdata⟩ => ?_
  obtain ⟨hdr, hheader, hcheck, -, -, hdataOff, rfl⟩ := hrecord
  have hnamesize := not_not.mp hnamesize
  rw [hnamesize] at hdataOff
  have hdataOff : r.dataOff = 116 := hdataOff
  rw [hdataOff, pad_add (by decide)] at hnext hdata
  have hnext4 : next % 4 = 0 := by
    rw [hnext, pad]
    omega
  refine (parseTrailer_spec hnext4).bind fun _ ⟨trailerHdr, trailer, htrailer, htrailerStands, htail⟩ => ?_
  have hexec := (isExecutable_iff (isHeader_lt hheader _ (by simp [Record.fields]))).mpr hmode
  have hfileLength := length_initBytes (length_of_isHeader hheader) data
  rw [hlength, ← hnext] at hfileLength
  -- the parts stand one behind the other
  have hfile : Stands payload 0 (initBytes hdr data) := by
    rw [hname, hnamesize] at hstands
    refine stands_append.mpr ⟨hstands, ?_⟩
    rw [length_front (length_of_isHeader hheader), hlength]
    exact hdata
  have hwhole : Stands payload 0 (initBytes hdr data ++ trailerBytes trailerHdr) := by
    refine stands_append.mpr ⟨hfile, ?_⟩
    rw [hfileLength, Nat.zero_add]
    exact htrailerStands
  obtain ⟨tail, hrest⟩ : ∃ tail, payload.drop (initBytes hdr data ++ trailerBytes trailerHdr).length =
      List.replicate tail 0 := by
    rw [List.length_append, hfileLength]
    exact ⟨_, List.eq_replicate_iff.mpr ⟨rfl, htail⟩⟩
  have hinit : InitHeader hdr r data.length := ⟨hheader, hcheck, hnamesize, hnlink, hexec, hlength.symm, by omega⟩
  refine .ok ⟨Nat.le_of_not_lt hpayload, ⟨hdr, trailerHdr, r, trailer, tail, hinit, htrailer, ?_⟩, ?_, ?_⟩
  · exact hwhole.eq_append_drop.trans (congrArg _ hrest)
  · rw [entryOf, hlength, hname, hdataOff]
  · exact hdataOff ▸ (stands_append.mp hdata).1

theorem parse_of_isArchive {file : List UInt8} (hpayload : payload.length ≤ maxPayload) (h : IsArchive payload file) :
    parse payload = .ok (entryOf file) := by
  obtain ⟨hdr, trailerHdr, r, trailer, tail, hinit, htrailer, hparts⟩ := h
  have hparts : payload = initBytes hdr file ++ trailerBytes trailerHdr ++ List.replicate tail 0 := hparts
  have hhdr := length_of_isHeader hinit.header
  have hfileLength := length_initBytes hhdr file
  have hfile : Stands payload 0 (initBytes hdr file) :=
    ⟨[], trailerBytes trailerHdr ++ List.replicate tail 0, by rw [hparts, List.append_assoc, List.nil_append], rfl⟩
  have htrailerStands : Stands payload (116 + file.length + pad file.length) (trailerBytes trailerHdr) :=
    ⟨initBytes hdr file, List.replicate tail 0, hparts, hfileLength⟩
  have htail : ∀ b ∈ payload.drop (116 + file.length + pad file.length + (trailerBytes trailerHdr).length), b = 0 := by
    rw [← hfileLength, ← List.length_append, hparts, List.drop_left]
    exact fun b hb => List.eq_of_mem_replicate hb
  obtain ⟨hfront, hdata⟩ := stands_append.mp hfile
  rw [length_front hhdr] at hdata
  generalize hr' : ({ r with name := initName, dataOff := 116 } : Record) = r'
  have hname : r'.name = initName := by rw [← hr']
  have hnamesize : r'.namesize = initNamesize := by rw [← hr']; exact hinit.namesize
  have hfilesize : r'.filesize = file.length := by rw [← hr']; exact hinit.filesize
  have hdataOff : r'.dataOff = 116 := by rw [← hr']
  have hfields : r'.fields = r.fields := by
    rw [← hr']
    rfl
  have hrecord : IsRecord (hdr ++ (initName ++ [0])) 0 r' := by
    refine ⟨hdr, hfields ▸ hinit.header, ?_, ?_, ?_, ?_, ?_⟩
    · rw [← hr']
      exact hinit.check
    · rw [hnamesize, hname]
      rfl
    · rw [hname]
      decide
    · rw [hdataOff, hnamesize]
      rfl
    · rw [hname, hnamesize]
      rfl
  have hdata' : Stands payload r'.dataOff (file ++ List.replicate (pad (r'.dataOff + r'.filesize)) 0) := by
    rw [hdataOff, hfilesize, pad_add (by decide)]
    exact hdata
  have hle := hdata.length_le
  rw [List.length_append] at hle
  have hmode : checkInitMode r' = .ok () := by
    have hmax : maxPayload < u64Bound := by decide
    obtain ⟨hfmt, hbits, hexec⟩ := (isExecutable_iff (isHeader_lt hinit.header r.mode (by simp [Record.fields]))).mp hinit.mode
    have hmode' : r'.mode = r.mode := by rw [← hr']
    have hnlink : r'.nlink = 1 := by
      rw [← hr']
      exact hinit.nlink
    have hsome := hinit.nonempty
    rw [checkInitMode, hmode', if_neg (not_not.mpr hfmt), if_neg (not_not.mpr hbits), if_neg hexec,
      if_neg (not_not.mpr hnlink), if_neg (by omega), if_neg (by omega), add_of_lt (by omega), Outcome.ok_bind,
      if_neg (by omega)]
  have hclassify : classifyFirstName r'.name = .ok () := if_pos hname
  have hnext4 : (116 + file.length + pad file.length) % 4 = 0 := by
    rw [pad]
    omega
  rw [parse, if_neg (Nat.not_lt_of_le hpayload), if_neg (by have : headerSize = 110 := rfl; omega),
    parseHeaderName_of_stands hpayload hrecord hfront, Outcome.ok_bind, hclassify, Outcome.ok_bind,
    if_neg (not_not.mpr hnamesize), hmode, Outcome.ok_bind, takeFile_of_stands hpayload hfilesize.symm hdata', Outcome.ok_bind,
    hdataOff, hfilesize, pad_add (by decide), parseTrailer_of_stands hpayload hnext4 htrailer htrailerStands htail,
    Outcome.ok_bind, hname]
  rfl

/-- `parse` accepts exactly the archives of the profile, and returns exactly the file. -/
theorem parse_exact (payload : List UInt8) :
    parse payload ≠ .trap ∧
      (∀ file, parse payload = .ok (entryOf file) ↔ payload.length ≤ maxPayload ∧ IsArchive payload file) ∧
      ∀ e, parse payload = .ok e → e = entryOf e.bytes ∧
        (slice payload e.offset (e.offset + e.length) : Outcome Error (List UInt8)) = .ok e.bytes := by
  have hspec := parse_spec payload
  refine ⟨hspec.1, fun file => ⟨fun h => ?_, fun ⟨hpayload, h⟩ => parse_of_isArchive hpayload h⟩, fun e h => ?_⟩
  · obtain ⟨hpayload, harchive, -, -⟩ := hspec.2 _ h
    exact ⟨hpayload, harchive⟩
  · obtain ⟨-, -, hentry, hstands⟩ := hspec.2 _ h
    have hlength : e.length = e.bytes.length := congrArg Entry.length hentry
    exact ⟨hentry, slice_eq_ok.mpr ⟨by rw [hlength], hstands⟩⟩

/-- The sample is an archive of its five bytes. -/
theorem parse_exact_sample : IsArchive sampleArchive [1, 2, 3, 4, 5] := by
  have hparse : parse sampleArchive = .ok (entryOf [1, 2, 3, 4, 5]) := by decide +kernel
  exact (((parse_exact sampleArchive).2.1 _).mp hparse).2

end InitrdNewc

end Native

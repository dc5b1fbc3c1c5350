import ZigKernel.QualifyFat16Reading
import ZigKernel.ToolsMkesp
import Mathlib.Data.List.TakeWhile

/-! The short names that `name83` encodes are those that the verifier of the volume reads, in capitals. -/

namespace Tools.Mkesp

open Zig
open Qualify (Fat16.name Fat16.rstrip Fat16.chars Fat16.forbidden)

/-- A field with blanks behind the characters. -/
def pad (n : Nat) (cs : Bytes) : Bytes := cs ++ List.replicate (n - cs.length) 32

theorem length_pad {n : Nat} {s : Bytes} (h : s.length ≤ n) : (pad n s).length = n := by
  rw [pad, List.length_append, List.length_replicate, Nat.add_sub_cancel' h]

/-- What is known of each character of a name. -/
structure ShortChar (c : UInt8) : Prop where
  printable : 32 < c ∧ c < 127
  dotless : c ≠ dot
  allowed : c ∉ Fat16.forbidden
  upper : (Char.ofNat c.toNat).toUpper = Char.ofNat c.toNat

theorem shortChar_of {c : UInt8} (h : isShortNameChar c = true) : ShortChar c := by
  have hall : ∀ n < 256, isShortNameChar (UInt8.ofNat n) = true →
      (32 < UInt8.ofNat n ∧ UInt8.ofNat n < 127) ∧ UInt8.ofNat n ≠ dot ∧ UInt8.ofNat n ∉ Fat16.forbidden ∧
        (Char.ofNat (UInt8.ofNat n).toNat).toUpper = Char.ofNat (UInt8.ofNat n).toNat := by
    decide +kernel
  have hc := hall c.toNat c.toNat_lt
  rw [UInt8.ofNat_toNat] at hc
  obtain ⟨hprintable, hdotless, hallowed, hupper⟩ := hc h
  exact ⟨hprintable, hdotless, hallowed, hupper⟩

theorem putChars_eq_ok {i : Nat} {cs out out' : Bytes} (h : putChars i cs out = .ok out') (hroom : i + cs.length ≤ out.length) :
    (∀ c ∈ cs.map toUpper, ShortChar c) ∧ out' = overwrite out i (cs.map toUpper) := by
  induction cs generalizing i out with
  | nil =>
      cases h
      exact ⟨nofun, by rw [List.map_nil, overwrite, List.append_nil, List.length_nil, Nat.add_zero, List.take_append_drop]⟩
  | cons c rest ih =>
      rw [List.length_cons] at hroom
      rw [putChars] at h
      split_ifs at h with hchar
      rw [memcpy_of_le (Nat.le_succ i) (by omega) (by simp)] at h
      have hfits : i + [toUpper c].length ≤ out.length := by
        rw [List.length_singleton]
        omega
      obtain ⟨hrest, rfl⟩ := ih h (by rw [length_overwrite hfits]; omega)
      exact ⟨List.forall_mem_cons.mpr ⟨shortChar_of hchar, hrest⟩, overwrite_overwrite (by omega)⟩

/-- A name in front of its dot and an extension behind it. -/
structure ShortName (s base ext raw : Bytes) : Prop where
  whole : s = if ext = [] then base else base ++ dot :: ext
  nonempty : base ≠ []
  fits : base.length ≤ 8 ∧ ext.length ≤ 3
  chars : ∀ c ∈ base.map toUpper ++ ext.map toUpper, ShortChar c
  raw : raw = pad 8 (base.map toUpper) ++ pad 3 (ext.map toUpper)

theorem overwrite_base {cs : Bytes} (h : cs.length ≤ 8) :
    overwrite (List.replicate 11 32) 0 cs = pad 8 cs ++ List.replicate 3 32 := by
  have hrest : 11 - (0 + cs.length) = 8 - cs.length + 3 := by omega
  rw [overwrite, List.take_zero, List.nil_append, List.drop_replicate, hrest, pad, List.append_assoc, List.replicate_add]

theorem overwrite_ext {cs front : Bytes} (hfront : front.length = 8) :
    overwrite (front ++ List.replicate 3 32) 8 cs = front ++ pad 3 cs := by
  rw [overwrite, List.take_left' hfront, ← hfront, List.drop_append, List.drop_eq_nil_of_le (Nat.le_add_right _ _),
    List.nil_append, Nat.add_sub_cancel_left, List.drop_replicate, pad, List.append_assoc]

/-- The two parts of a name. -/
theorem split_whole (s : Bytes) (h : (s.findIdx? (· = dot)).isSome → (split s).2 ≠ []) :
    s = if (split s).2 = [] then (split s).1 else (split s).1 ++ dot :: (split s).2 := by
  rw [split] at h ⊢
  cases hfind : s.findIdx? (· = dot) with
  | none => rfl
  | some d =>
      rw [hfind] at h
      obtain ⟨hd, hdot, -⟩ := List.findIdx?_eq_some_iff_getElem.mp hfind
      have heq : s[d] = dot := of_decide_eq_true hdot
      rw [if_neg (h rfl)]
      dsimp only
      rw [← heq, ← List.drop_eq_getElem_cons hd, List.take_append_drop]

theorem name83_eq_ok {s raw : Bytes} (h : name83 s = .ok raw) (hdots : ¬(s = [dot] ∨ s = [dot, dot])) :
    ∃ base ext, ShortName s base ext raw := by
  rw [name83, if_neg hdots] at h
  obtain ⟨base, ext, hsplit⟩ : ∃ base ext, split s = (base, ext) := ⟨_, _, rfl⟩
  rw [hsplit] at h
  dsimp only at h
  split_ifs at h with hcount hempty hlong hmissing hext
  obtain ⟨out, hout, h⟩ := Outcome.bind_eq_ok h
  have hbase : base.length ≤ 8 := Nat.le_of_not_lt hlong
  have hextension : ext.length ≤ 3 := Nat.le_of_not_lt hext
  obtain ⟨hbaseChars, rfl⟩ := putChars_eq_ok hout (by rw [List.length_replicate]; omega)
  rw [overwrite_base (by rw [List.length_map]; exact hbase)] at h
  have hfront := length_pad (n := 8) (s := base.map toUpper) (by rw [List.length_map]; exact hbase)
  obtain ⟨hextChars, rfl⟩ := putChars_eq_ok h (by rw [List.length_append, hfront, List.length_replicate]; omega)
  rw [overwrite_ext hfront]
  have hwhole := split_whole s (by
    rw [hsplit]
    exact fun hsome hnil => hmissing ⟨hsome, congrArg List.length hnil⟩)
  rw [hsplit] at hwhole
  exact ⟨base, ext, hwhole, fun hnil => hempty (congrArg List.length hnil), ⟨hbase, hextension⟩,
    List.forall_mem_append.mpr ⟨hbaseChars, hextChars⟩, rfl⟩

/-! ### As the verifier reads them -/

theorem rstrip_pad {n : Nat} {cs : Bytes} (h : ∀ c ∈ cs, c ≠ 32) : Fat16.rstrip (pad n cs) = cs := by
  rw [Fat16.rstrip, pad, List.reverse_append, List.reverse_replicate]
  have hblank (k : Nat) (xs : Bytes) :
      (List.replicate k (32 : UInt8) ++ xs).dropWhile (fun b => decide (b = 32)) = xs.dropWhile fun b => decide (b = 32) := by
    induction k with
    | zero => rfl
    | succ k ih => rw [List.replicate_succ, List.cons_append, List.dropWhile_cons_of_pos (by decide), ih]
  have hstop : cs.reverse.dropWhile (fun b => decide (b = 32)) = cs.reverse :=
    List.dropWhile_eq_self_iff.mpr fun hlen => by
      simpa using h _ (List.mem_reverse.mp (List.getElem_mem hlen))
  rw [hblank, hstop, List.reverse_reverse]

theorem decodeAscii_ok {raw : Bytes} (h : ∀ b ∈ raw, b < 128) :
    Qualify.Fat16.decodeAscii raw = .ok (String.ofList (Fat16.chars raw)) := by
  rw [Qualify.Fat16.decodeAscii, if_pos (List.all_eq_true.mpr fun b hb => decide_eq_true (h b hb))]
  rfl

/-- What is read for a name: its characters in capitals. -/
def upper (s : Bytes) : String := String.ofList (Fat16.chars (s.map toUpper))

theorem toUpper_chars {cs : Bytes} (h : ∀ c ∈ cs, ShortChar c ∨ c = dot) :
    (String.ofList (Fat16.chars cs)).toUpper = String.ofList (Fat16.chars cs) := by
  refine String.toList_injective ?_
  rw [String.toUpper, String.toList_map, String.toList_ofList, Fat16.chars, List.map_map]
  refine List.map_congr_left fun c hc => ?_
  rcases h c hc with hchar | rfl
  · exact hchar.upper
  · rfl

theorem ShortName.upper_eq {s base ext raw : Bytes} (h : ShortName s base ext raw) :
    String.ofList (Fat16.chars (base.map toUpper)) ++
      (if ext.map toUpper ≠ [] then "." ++ String.ofList (Fat16.chars (ext.map toUpper)) else "") = upper s := by
  have hwhole := h.whole
  by_cases hext : ext = []
  · rw [if_pos hext] at hwhole
    rw [hext, List.map_nil, if_neg (not_not.mpr rfl), hwhole, String.append_empty]
    rfl
  · rw [if_neg hext] at hwhole
    have hdot : "." = String.ofList ['.'] := rfl
    rw [if_pos (by simpa using hext), hwhole, hdot, ← String.ofList_append, ← String.ofList_append, upper, List.map_append]
    simp only [Fat16.chars, List.map_append, List.map_cons]
    rfl

theorem ShortName.read {s base ext raw : Bytes} (h : ShortName s base ext raw) : Fat16.name raw = .ok (upper s) := by
  obtain ⟨hbaseLength, hextLength⟩ := h.fits
  obtain ⟨hbase, hext⟩ := List.forall_mem_append.mp h.chars
  have hblank {cs : Bytes} (hcs : ∀ c ∈ cs, ShortChar c) : ∀ c ∈ cs, c ≠ 32 := fun c hc heq =>
    UInt8.lt_irrefl _ (heq ▸ (hcs c hc).printable.1)
  have hascii {cs : Bytes} (hcs : ∀ c ∈ cs, ShortChar c) : ∀ c ∈ cs, c < 128 := fun c hc =>
    UInt8.lt_trans (hcs c hc).printable.2 (by decide)
  have hfront := length_pad (n := 8) (s := base.map toUpper) (by rw [List.length_map]; exact hbaseLength)
  have hstem : Fat16.rstrip (raw.take 8) = base.map toUpper := by
    rw [h.raw, List.take_left' hfront, rstrip_pad (hblank hbase)]
  have hsuffix : Fat16.rstrip (raw.drop 8) = ext.map toUpper := by
    rw [h.raw, List.drop_left' hfront, rstrip_pad (hblank hext)]
  -- The name starts with a character that is no dot.
  obtain ⟨c, rest, hcons⟩ := List.exists_cons_of_ne_nil h.nonempty
  have hfirst : raw.head? = some (toUpper c) := by
    rw [h.raw, hcons]
    rfl
  have hdotless : toUpper c ≠ 46 := (hbase _ (List.mem_map_of_mem (hcons ▸ List.mem_cons_self))).dotless
  have hno {name : Bytes} (hname : name.head? = some 46) : raw ≠ name := fun heq =>
    hdotless (Option.some.inj (hfirst.symm.trans (heq ▸ hname)))
  have hprintable : ∀ b ∈ raw, 32 ≤ b ∧ b < 127 := fun b hb => by
    rw [h.raw, pad, pad] at hb
    simp only [List.mem_append, List.mem_replicate] at hb
    rcases hb with (hb | ⟨-, rfl⟩) | hb | ⟨-, rfl⟩
    · exact ⟨UInt8.le_of_lt (hbase b hb).printable.1, (hbase b hb).printable.2⟩
    · decide
    · exact ⟨UInt8.le_of_lt (hext b hb).printable.1, (hext b hb).printable.2⟩
    · decide
  rw [Fat16.name, if_neg (hno rfl), if_neg (hno rfl), ← h.upper_eq]
  refine Qualify.Fat16.check_then (List.all_eq_true.mpr fun b hb => decide_eq_true (hprintable b hb)) ?_
  dsimp only
  rw [hstem, hsuffix]
  refine Qualify.Fat16.check_then ⟨by simpa using h.nonempty, fun hmem => hblank h.chars 32 hmem rfl⟩ ?_
  refine Qualify.Fat16.check_then (List.all_eq_true.mpr fun b hb => decide_eq_true (h.chars b hb).allowed) ?_
  refine Qualify.Fat16.ok_then (decodeAscii_ok (hascii hbase)) (Qualify.Fat16.ok_then (decodeAscii_ok (hascii hext)) ?_)
  refine Qualify.Fat16.check_then ?_ rfl
  rw [h.upper_eq, upper]
  refine (toUpper_chars fun b hb => ?_).symm
  rw [h.whole] at hb
  split_ifs at hb
  · exact Or.inl (hbase b hb)
  · rw [List.map_append, List.map_cons, List.mem_append, List.mem_cons] at hb
    rcases hb with hb | rfl | hb
    · exact Or.inl (hbase b hb)
    · exact Or.inr rfl
    · exact Or.inl (hext b hb)

/-- Every name that is encoded is read in capitals. -/
theorem name_name83 {s raw : Bytes} (h : name83 s = .ok raw) : Fat16.name raw = .ok (upper s) := by
  by_cases hdots : s = [dot] ∨ s = [dot, dot]
  · rw [name83, if_pos hdots] at h
    rcases hdots with rfl | rfl
    · cases h
      rfl
    · cases h
      rfl
  · obtain ⟨base, ext, hname⟩ := name83_eq_ok h hdots
    exact hname.read

theorem chars_injective : Function.Injective Fat16.chars := by
  refine List.map_injective_iff.mpr fun a b h => ?_
  have hvalid (c : UInt8) : (Char.ofNat c.toNat).toNat = c.toNat := by
    rw [Char.ofNat, dif_pos (Or.inl (Nat.lt_trans c.toNat_lt (by decide)))]
    rfl
  have htoNat := congrArg Char.toNat h
  rw [hvalid, hvalid] at htoNat
  exact UInt8.toNat.inj htoNat

/-- A name that is encoded fills its field, is read in capitals, and has the field for itself but for its case. -/
theorem short_name_read {s raw : Bytes} (h : name83 s = .ok raw) :
    raw.length = 11 ∧ Fat16.name raw = .ok (upper s) ∧ ∀ s', name83 s' = .ok raw → s'.map toUpper = s.map toUpper := by
  have hread := name_name83 h
  refine ⟨?_, hread, fun s' h' => ?_⟩
  · by_cases hdots : s = [dot] ∨ s = [dot, dot]
    · rw [name83, if_pos hdots] at h
      rcases hdots with rfl | rfl
      · cases h
        rfl
      · cases h
        rfl
    · obtain ⟨base, ext, hname⟩ := name83_eq_ok h hdots
      obtain ⟨hbase, hext⟩ := hname.fits
      rw [hname.raw, List.length_append, length_pad (by rw [List.length_map]; exact hbase),
        length_pad (by rw [List.length_map]; exact hext)]
  · have hsame := (name_name83 h').symm.trans hread
    rw [Except.ok.injEq] at hsame
    exact chars_injective (String.ofList_injective hsame)

theorem short_name_read_kernel : Fat16.name (lit "KERNEL  ELF") = .ok "KERNEL.ELF" :=
  (@short_name_read (lit "kernel.elf") (lit "KERNEL  ELF") rfl).2.1

end Tools.Mkesp

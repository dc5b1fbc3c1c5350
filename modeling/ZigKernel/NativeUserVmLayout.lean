import ZigKernel.LibPaging
import ZigKernel.NativeUserVm
import Mathlib.Logic.Function.Basic

/-! The address space that a construction aims at: which frame plays which part, independently of how the
tables encode it. `Represents` relates it to the bytes of the frames, and the results below read the
four-level lookup off a layout that is represented. -/

namespace Native

open Zig

namespace UserVm

/-- The parts a frame can play. Page tables are named by their index in the page directory, pages by their
page number. -/
inductive Role where
  | root | pdpt | pd
  | pt (i : Nat)
  | leaf (n : Nat)
  deriving DecidableEq, Repr

/-- The part of the frame that entry `i` of a table points to. The root's only subtable serves the first 512
GiB, and of these the space uses the second GiB. -/
def Role.child : Role → Nat → Option Role
  | .root, i => if i = 0 then some .pdpt else none
  | .pdpt, i => if i = 1 then some .pd else none
  | .pd, i => some (.pt i)
  | .pt i, j => some (.leaf (2 ^ 18 + i * 512 + j))
  | .leaf _, _ => none

def Role.IsTable : Role → Prop
  | .leaf _ => False
  | _ => True

/-- The two agree on the bytes of a page. -/
def SameBytes (a b : Page) : Prop := ∀ off < UserVm.page, a off = b off

/-- A frame with the flags of the entry that points to it; `bytes` is the content of a leaf. -/
structure Node where
  frame : Nat
  flags : Nat
  bytes : Page := zeroPage

/-- The value of the entry. -/
def Node.value (node : Node) : Nat := node.frame ||| node.flags

structure Node.Good (node : Node) : Prop where
  frame : Paging.Frame node.frame
  present : node.flags.testBit Paging.presentBit = true
  small : node.flags.testBit Paging.largeBit = false
  clear : node.flags &&& Paging.addrMask = 0
  bounded : node.value < 2 ^ 64

abbrev Layout : Type := Role → Option Node

def tableFlags : Nat := pteP ||| pteW ||| pteU

namespace Layout

def assign (L : Layout) (r : Role) (node : Node) : Layout := Function.update L r (some node)

/-- Entry `i` of the table that plays part `r`. -/
def entry (L : Layout) (template : KernelTemplate) (r : Role) (i : Nat) : Nat :=
  if r = .pdpt ∧ i = 0 then template.pdpt0Entry.val
  else
    match (r.child i).bind L with
    | some node => node.value
    | none => 0

/-- What a frame holds when it takes its part, before anything is linked below it. -/
def initial (template : KernelTemplate) (node : Node) : Role → Page
  | .pdpt => storeU64 zeroPage 0 template.pdpt0Entry.val
  | .leaf _ => node.bytes
  | _ => zeroPage

/-- The layout has all the parts of the other one. -/
def Extends (L L' : Layout) : Prop := ∀ r node, L r = some node → L' r = some node

theorem Extends.refl (L : Layout) : Extends L L := fun _ _ h => h

theorem Extends.trans {L L' L'' : Layout} (h : Extends L L') (h' : Extends L' L'') : Extends L L'' :=
  fun r node hr => h' r node (h r node hr)

theorem extends_assign {L : Layout} {r : Role} {node : Node} (h : L r = none) : Extends L (L.assign r node) := by
  intro r' node' hr'
  have hne : r' ≠ r := fun heq => by
    rw [heq, h] at hr'
    cases hr'
  rw [assign, Function.update_of_ne hne]
  exact hr'

@[simp] theorem assign_self (L : Layout) (r : Role) (node : Node) : L.assign r node r = some node :=
  Function.update_self ..

theorem assign_of_ne {L : Layout} {r r' : Role} (h : r' ≠ r) (node : Node) : L.assign r node r' = L r' :=
  Function.update_of_ne h ..

/-- What holds of the new frame in its part and of those that had a part holds of all. -/
theorem forall_assign {L : Layout} {c : Role} {node : Node} {P : Role → Node → Prop} (hnew : P c node)
    (hold : ∀ r node', r ≠ c → L r = some node' → P r node') (r : Role) (node' : Node)
    (hr : L.assign c node r = some node') : P r node' := by
  by_cases hrc : r = c
  · subst hrc
    rw [assign_self] at hr
    exact Option.some.inj hr ▸ hnew
  · rw [assign_of_ne hrc] at hr
    exact hold r node' hrc hr

end Layout

theorem Role.child_injective {p p' c : Role} {i i' : Nat} (hi : i < 512) (hi' : i' < 512)
    (h : p.child i = some c) (h' : p'.child i' = some c) : p = p' ∧ i = i' := by
  cases p <;> cases p' <;>
    simp only [Role.child, Option.ite_none_right_eq_some, Option.some.injEq, reduceCtorEq] at h h' <;> grind

theorem Role.child_ne_self {p : Role} {i : Nat} : p.child i ≠ some p := by
  cases p <;> simp [Role.child]

theorem Role.child_ne_root {p : Role} {i : Nat} : p.child i ≠ some .root := by
  cases p <;> simp [Role.child]

namespace SameBytes

variable {a b c : Page}

theorem refl (a : Page) : SameBytes a a := fun _ _ => rfl
theorem trans (h : SameBytes a b) (h' : SameBytes b c) : SameBytes a c := fun off hoff => (h off hoff).trans (h' off hoff)

theorem loadU64 (h : SameBytes a b) {i : Nat} (hi : i < 512) : UserVm.loadU64 a i = UserVm.loadU64 b i := by
  refine LittleEndian.decode_congr fun j hj => h _ ?_
  have hpage : UserVm.page = 4096 := rfl
  omega

theorem storeU64 (h : SameBytes a b) (i v : Nat) : SameBytes (UserVm.storeU64 a i v) (UserVm.storeU64 b i v) := by
  intro off hoff
  rw [UserVm.storeU64, UserVm.storeU64, LittleEndian.store, LittleEndian.store, h off hoff]

end SameBytes

theorem loadU64_zeroPage (i : Nat) : loadU64 zeroPage i = 0 := LittleEndian.load_zero

theorem loadU64_storeU64_self {bytes : Page} {i v : Nat} (h : v < 2 ^ 64) : loadU64 (storeU64 bytes i v) i = v := by
  have hload : loadU64 (storeU64 bytes i v) i = v % 256 ^ 8 := LittleEndian.load_store_self
  rw [hload]
  exact Nat.mod_eq_of_lt h

theorem loadU64_storeU64_of_ne {bytes : Page} {i j v : Nat} (h : j ≠ i) :
    loadU64 (storeU64 bytes i v) j = loadU64 bytes j := LittleEndian.load_store_of_ne h

/-- The bytes of the frames encode the layout. -/
structure Represents (template : KernelTemplate) (page : Nat → Page) (L : Layout) : Prop where
  good : ∀ r node, L r = some node → node.Good
  reserved : ∀ r node, L r = some node → node.frame ≠ template.rootPhys.val ∧ node.frame ≠ template.borrowedPd
  tables : ∀ r node, L r = some node → r.IsTable → node.flags = tableFlags
  private_ : ∀ r r' node node', L r = some node → L r' = some node' → node.frame = node'.frame → r = r'
  placed : ∀ r, L r ≠ none → r = .root ∨ ∃ p i, i < 512 ∧ p.child i = some r ∧ L p ≠ none
  entries : ∀ r node, L r = some node → r.IsTable → ∀ i < 512, loadU64 (page node.frame) i = L.entry template r i
  bytes : ∀ n node, L (.leaf n) = some node → SameBytes (page node.frame) node.bytes

variable {template : KernelTemplate} {page page' : Nat → Page} {L : Layout}

theorem Layout.entry_assign_of_ne {r c : Role} {i : Nat} (h : r.child i ≠ some c) (node : Node) :
    (L.assign c node).entry template r i = L.entry template r i := by
  have hbind : (r.child i).bind (L.assign c node) = (r.child i).bind L := by
    cases hchild : r.child i with
    | none => rfl
    | some c' =>
        have hne : c' ≠ c := fun heq => h (by rw [hchild, heq])
        exact Layout.assign_of_ne hne node
  rw [Layout.entry, Layout.entry, hbind]

theorem Layout.entry_assign_self {p c : Role} {i : Nat} (h : p.child i = some c) (node : Node) :
    (L.assign c node).entry template p i = node.value := by
  have hborrowed : ¬(p = .pdpt ∧ i = 0) := by
    rintro ⟨rfl, rfl⟩
    cases h
  rw [Layout.entry, if_neg hborrowed, h, Option.bind_some, Layout.assign_self]

namespace Represents

/-- Only the bytes of the frames that play a part matter. -/
theorem congr (h : Represents template page L)
    (hpage : ∀ r node, L r = some node → SameBytes (page' node.frame) (page node.frame)) :
    Represents template page' L :=
  { h with
    entries := fun r node hr htable i hi =>
      ((hpage r node hr).loadU64 hi).trans (h.entries r node hr htable i hi)
    bytes := fun n node hr => (hpage _ node hr).trans (h.bytes n node hr) }

/-- Nothing is linked below a part that no frame plays. -/
theorem child_absent (h : Represents template page L) {r c : Role} {i : Nat} (hi : i < 512) (hr : L r = none)
    (hchild : r.child i = some c) : L c = none := by
  by_contra hc
  rcases h.placed c hc with rfl | ⟨p, i', hi', hchild', hp⟩
  · exact Role.child_ne_root hchild
  · rw [(Role.child_injective hi' hi hchild' hchild).1] at hp
    exact hp hr

theorem entry_absent (h : Represents template page L) {r : Role} {node : Node} {i : Nat} (hi : i < 512)
    (hr : L r = none) : (L.assign r node).entry template r i = if r = .pdpt ∧ i = 0 then template.pdpt0Entry.val else 0 := by
  rw [Layout.entry_assign_of_ne Role.child_ne_self, Layout.entry]
  cases hchild : r.child i with
  | none => rfl
  | some c => rw [Option.bind_some, h.child_absent hi hr hchild]

theorem loadU64_initial (node : Node) {r : Role} (hr : r.IsTable) (i : Nat) :
    loadU64 (Layout.initial template node r) i = if r = .pdpt ∧ i = 0 then template.pdpt0Entry.val else 0 := by
  by_cases hborrowed : r = .pdpt ∧ i = 0
  · obtain ⟨rfl, rfl⟩ := hborrowed
    exact loadU64_storeU64_self template.pdpt0Entry.isLt
  · rw [if_neg hborrowed]
    cases r with
    | pdpt => exact (loadU64_storeU64_of_ne fun hi => hborrowed ⟨rfl, hi⟩).trans (loadU64_zeroPage i)
    | leaf n => exact hr.elim
    | _ => exact loadU64_zeroPage i

/-- The layout in which only the root has a frame. -/
theorem root {node : Node} (hgood : node.Good) (hflags : node.flags = tableFlags)
    (hreserved : node.frame ≠ template.rootPhys.val ∧ node.frame ≠ template.borrowedPd)
    (hzero : SameBytes (page node.frame) zeroPage) :
    Represents template page (Layout.assign (fun _ => none) .root node) := by
  have honly : ∀ r node', Layout.assign (fun _ => none) .root node r = some node' → r = .root ∧ node' = node :=
    Layout.forall_assign ⟨rfl, rfl⟩ nofun
  constructor
  · intro r node' hr
    obtain ⟨-, rfl⟩ := honly r node' hr
    exact hgood
  · intro r node' hr
    obtain ⟨-, rfl⟩ := honly r node' hr
    exact hreserved
  · intro r node' hr _
    obtain ⟨-, rfl⟩ := honly r node' hr
    exact hflags
  · intro r r' node₁ node₂ hr hr' _
    rw [(honly r node₁ hr).1, (honly r' node₂ hr').1]
  · intro r hr
    obtain ⟨node', hnode⟩ := Option.ne_none_iff_exists'.mp hr
    exact Or.inl (honly r node' hnode).1
  · intro r node' hr _ i hi
    obtain ⟨rfl, rfl⟩ := honly r node' hr
    rw [hzero.loadU64 hi, loadU64_zeroPage, Layout.entry_assign_of_ne Role.child_ne_self, Layout.entry, if_neg (by simp)]
    cases Role.root.child i <;> rfl
  · intro n node' hr
    cases (honly _ node' hr).1

/-- One more frame takes its part: it has been prepared for it and linked into its parent. -/
theorem assign (h : Represents template page L) {p c : Role} {i : Nat} {parent node : Node} (hi : i < 512)
    (hchild : p.child i = some c) (hp : L p = some parent) (hc : L c = none) (hgood : node.Good)
    (hflags : c.IsTable → node.flags = tableFlags)
    (hreserved : node.frame ≠ template.rootPhys.val ∧ node.frame ≠ template.borrowedPd)
    (hfresh : ∀ r node', L r = some node' → node'.frame ≠ node.frame)
    (hparent : SameBytes (page' parent.frame) (storeU64 (page parent.frame) i node.value))
    (hnode : SameBytes (page' node.frame) (Layout.initial template node c))
    (hother : ∀ r node', L r = some node' → r ≠ p → SameBytes (page' node'.frame) (page node'.frame)) :
    Represents template page' (L.assign c node) := by
  have htable : p.IsTable := by
    cases p with
    | leaf n => cases hchild
    | _ => trivial
  constructor
  · exact Layout.forall_assign hgood fun r node' _ hr => h.good r node' hr
  · exact Layout.forall_assign hreserved fun r node' _ hr => h.reserved r node' hr
  · exact Layout.forall_assign hflags fun r node' _ hr => h.tables r node' hr
  · intro r r' node₁ node₂ hr hr'
    revert r' node₂
    refine Layout.forall_assign (P := fun r node₁ => ∀ r' node₂, L.assign c node r' = some node₂ →
      node₁.frame = node₂.frame → r = r') ?_ (fun r node₁ _ hr => ?_) r node₁ hr
    · exact Layout.forall_assign (fun _ => rfl) fun r' node₂ _ hr' hframe => absurd hframe.symm (hfresh r' node₂ hr')
    · refine Layout.forall_assign (fun hframe => absurd hframe (hfresh r node₁ hr)) fun r' node₂ _ hr' => ?_
      exact h.private_ r r' node₁ node₂ hr hr'
  · intro r hr
    have hextends (r' : Role) (hr' : L r' ≠ none) : L.assign c node r' ≠ none := by
      obtain ⟨node', hnode'⟩ := Option.ne_none_iff_exists'.mp hr'
      rw [Layout.extends_assign hc r' node' hnode']
      nofun
    by_cases hrc : r = c
    · refine Or.inr ⟨p, i, hi, hrc ▸ hchild, hextends p ?_⟩
      rw [hp]
      nofun
    · rw [Layout.assign_of_ne hrc] at hr
      rcases h.placed r hr with hroot | ⟨q, j, hj, hqchild, hq⟩
      · exact Or.inl hroot
      · exact Or.inr ⟨q, j, hj, hqchild, hextends q hq⟩
  · refine Layout.forall_assign (fun hr' j hj => ?_) fun r node' _ hr hr' j hj => ?_
    · rw [hnode.loadU64 hj, loadU64_initial node hr', h.entry_absent hj hc]
    · by_cases hrp : r = p
      · subst hrp
        rw [hp] at hr
        cases hr
        rw [hparent.loadU64 hj]
        by_cases hji : j = i
        · rw [hji, loadU64_storeU64_self hgood.bounded, Layout.entry_assign_self hchild]
        · have hne : r.child j ≠ some c := fun heq => hji (Role.child_injective hj hi heq hchild).2
          rw [loadU64_storeU64_of_ne hji, h.entries r parent hp htable j hj, Layout.entry_assign_of_ne hne]
      · have hne : r.child j ≠ some c := fun heq => hrp (Role.child_injective hj hi heq hchild).1
        rw [(hother r node' hr hrp).loadU64 hj, h.entries r node' hr hr' j hj, Layout.entry_assign_of_ne hne]
  · intro n node' hr
    refine Layout.forall_assign (P := fun r node' => r = .leaf n → SameBytes (page' node'.frame) node'.bytes)
      (fun hleaf => ?_) (fun r node' _ hr hleaf => ?_) (.leaf n) node' hr rfl
    · subst hleaf
      exact hnode
    · subst hleaf
      have hne : Role.leaf n ≠ p := by
        rintro rfl
        exact htable
      exact (hother _ node' hr hne).trans (h.bytes n node' hr)

end Represents

end UserVm

end Native

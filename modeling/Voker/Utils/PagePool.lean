import Voker.Foundation.BitFields
import Voker.Foundation.Runs
import Mathlib.Data.Nat.Log

/-!
# The page pool

`PagePool` serves a request for memory from its last page, above what that page has served so
far, or else from a new page.  This module proves that **the regions it hands out are aligned,
lie in its pages and do not overlap**, for any requests.

The system allocator answers with addresses of its own choice.  A step is possible when they
are as promised and no address overflows.
-/

namespace Voker.Utils

open Foundation Foundation.BitFields List Option

/-- `Layout`: a size, and the logarithm of an alignment. -/
structure Layout where
  size : ℕ
  alignLog : ℕ
  fits : alignLog < 64

/-- The memory a layout takes from an address on. -/
structure Region where
  layout : Layout
  data : ℕ

/-- The first address behind a region. -/
def Region.stop (region : Region) : ℕ := region.data + region.layout.size

def Region.Apart (one two : Region) : Prop := one.stop ≤ two.data ∨ two.stop ≤ one.data

/-- `Page`: its memory, how far it is used, and (not in the code) the regions it has served. -/
structure Page extends Region where
  span : ℕ
  served : List Region

/-- The calls of a pool. -/
inductive PoolCall where
  | alloc (layout : Layout)
  | allocValue (type : Layout)
  | allocSlice (type : Layout) (len : ℕ)
  | allocStr (len : ℕ)

/-- The layout a call allocates. -/
def PoolCall.layout : PoolCall → Layout
  | alloc layout => layout
  | allocValue type => type
  | allocSlice type len => { type with size := type.size * len }
  | allocStr len => ⟨len, 0, by decide⟩

namespace PagePool

/-- `(addr + align_mask) & !align_mask`, unless the sum overflows. -/
def alignUp (addr : ℕ) (layout : Layout) : Option ℕ :=
  let sum := addr + (2 ^ layout.alignLog - 1)
  if sum < 2 ^ 64 then some (BitVec.ofNat 64 sum &&& ~~~ lowMask 64 layout.alignLog).toNat
  else none

/-- A page hands out the region at an address. -/
def serve (page : Page) (layout : Layout) (addr : ℕ) : Page :=
  { page with span := addr + layout.size, served := ⟨layout, addr⟩ :: page.served }

/-- `alloc_layout_slow`: a new page where the system allocator says.  That is an aligned place
apart from the other pages. -/
def allocLayoutSlow (pageSize : ℕ) (layout : Layout) (malloc : ℕ) (pages : List Page) :
    Option (ℕ × List Page) :=
  (alignUp (2 ^ Nat.clog 2 (max pageSize layout.size)) layout).bind fun size =>
    if 2 ^ layout.alignLog ∣ malloc ∧
        ∀ page ∈ pages, malloc + size ≤ page.data ∨ page.stop ≤ malloc then
      some (malloc, serve ⟨⟨{ layout with size }, malloc⟩, malloc, []⟩ layout malloc :: pages)
    else none

/-- `alloc`: from the last page, which comes first here, if it has room. -/
def alloc (pageSize : ℕ) (layout : Layout) (malloc : ℕ) : List Page → Option (ℕ × List Page)
  | page :: older => (alignUp page.span layout).bind fun aligned =>
    if aligned + layout.size ≤ page.stop then some (aligned, serve page layout aligned :: older)
    else allocLayoutSlow pageSize layout malloc (page :: older)
  | [] => allocLayoutSlow pageSize layout malloc []

/-- One call, with the answer of the system allocator if it is asked.  What is returned is the
address of the region served last (`alloc_served`). -/
def step (pageSize : ℕ) (request : PoolCall × ℕ) (pages : List Page) : Option (List Page) :=
  (alloc pageSize request.1.layout request.2 pages).map Prod.snd

/-- The address that is returned is that of the region served last. -/
theorem alloc_served {pageSize malloc addr : ℕ} {l : Layout} {pages next : List Page}
    (hs : alloc pageSize l malloc pages = some (addr, next)) :
    (next.flatMap Page.served).head? = some ⟨l, addr⟩ := by
  have slow : ∀ {pages}, allocLayoutSlow pageSize l malloc pages = some (addr, next) →
      (next.flatMap Page.served).head? = some ⟨l, addr⟩ := by
    intro pages hs
    obtain ⟨size, -, hs⟩ := bind_eq_some_iff.mp hs
    obtain ⟨-, ⟨⟩⟩ := ite_none_right_eq_some.mp hs
    rfl
  cases pages with
  | nil => exact slow hs
  | cons page o =>
    obtain ⟨a, -, hs⟩ := bind_eq_some_iff.mp hs
    split at hs
    · cases hs
      rfl
    · exact slow hs

/-- Rounding up gives an aligned address that is not below. -/
theorem alignUp_some {addr al : ℕ} {l : Layout}
    (hr : alignUp addr l = some al) :
    addr ≤ al ∧ 2 ^ l.alignLog ∣ al := by
  rw [alignUp, ite_none_right_eq_some, some_inj] at hr
  obtain ⟨hs, rfl⟩ := hr
  rw [toNat_and_not_lowMask _ l.fits.le, BitVec.toNat_ofNat, Nat.mod_eq_of_lt hs]
  refine ⟨?_, Nat.dvd_mul_left ..⟩
  have hb := Nat.lt_div_mul_add (a := addr + (2 ^ l.alignLog - 1))
    (Nat.two_pow_pos l.alignLog)
  omega

/-- What a page has served lies in its used part. -/
structure Packed (page : Page) : Prop where
  low : page.data ≤ page.span
  high : page.span ≤ page.stop
  used : ∀ region ∈ page.served, 2 ^ region.layout.alignLog ∣ region.data ∧
    page.data ≤ region.data ∧ region.stop ≤ page.span
  apart : page.served.Pairwise Region.Apart

/-- A page that serves a region above its span stays packed. -/
theorem Packed.serve {page : Page} (hp : Packed page) {l : Layout} {addr : ℕ}
    (ha : page.span ≤ addr) (hal : 2 ^ l.alignLog ∣ addr)
    (hr : addr + l.size ≤ page.stop) : Packed (serve page l addr) := by
  have low := hp.low
  have hg : page.span ≤ addr + l.size := ha.trans (Nat.le_add_right ..)
  refine ⟨low.trans hg, hr, ?_, ?_⟩
  · refine forall_mem_cons.mpr ⟨⟨hal, low.trans ha, le_rfl⟩, fun r mem => ?_⟩
    obtain ⟨hf, hs, hst⟩ := hp.used r mem
    exact ⟨hf, hs, hst.trans hg⟩
  · refine pairwise_cons.mpr ⟨fun r mem => Or.inr ?_, hp.apart⟩
    exact (hp.used r mem).2.2.trans ha

/-- **The invariant**: pages are apart, and packed. -/
structure Inv (pages : List Page) : Prop where
  apart : pages.Pairwise fun one two => one.Apart two.toRegion
  packed : ∀ page ∈ pages, Packed page

variable {pageSize : ℕ} {pages : List Page}

theorem Inv.slow (inv : Inv pages) {l : Layout} {m : ℕ} {next : ℕ × List Page}
    (hs : allocLayoutSlow pageSize l m pages = some next) : Inv next.2 := by
  obtain ⟨size, hr, hs⟩ := bind_eq_some_iff.mp hs
  rw [ite_none_right_eq_some, some_inj] at hs
  obtain ⟨⟨ha, hap⟩, rfl⟩ := hs
  have he : l.size ≤ size :=
    (le_max_right ..).trans ((Nat.le_pow_clog (by decide) _).trans (alignUp_some hr).1)
  have hem : Packed ⟨⟨{ l with size }, m⟩, m, []⟩ :=
    ⟨le_rfl, Nat.le_add_right .., forall_mem_nil _, .nil⟩
  exact ⟨pairwise_cons.mpr ⟨hap, inv.apart⟩, forall_mem_cons.mpr
    ⟨hem.serve le_rfl ha (Nat.add_le_add_left he _), inv.packed⟩⟩

/-- Every call keeps the invariant. -/
theorem inv_step (r : PoolCall × ℕ) (pages next : List Page) (inv : Inv pages)
    (hs : step pageSize r pages = some next) : Inv next := by
  obtain ⟨an, hse, rfl⟩ := map_eq_some_iff.mp hs
  cases pages with
  | nil => exact inv.slow hse
  | cons page o =>
    obtain ⟨a, hr, hse⟩ := bind_eq_some_iff.mp hse
    obtain ⟨ha, hm⟩ := alignUp_some hr
    split at hse
    · next hro =>
      cases hse
      obtain ⟨hp, ho⟩ := forall_mem_cons.mp inv.packed
      exact ⟨pairwise_cons.mpr (pairwise_cons.mp inv.apart),
        forall_mem_cons.mpr ⟨hp.serve ha hm hro, ho⟩⟩
    · exact inv.slow hse

end PagePool

end Voker.Utils

import SpillStorage.Proofs.Session.Sound
import SpillStorage.Proofs.Chain.Checked

/-!
The bytes of a space that lie in memory in one piece.

What is proved:
  1. `first_window`: the search for a piece finds the first one, at any point of a session, and so
     it does in every chain.
  2. `views_agree`: there is a view of a range exactly if the space covers it and one memory block
     holds it. The view shows what reading gives, and a store into it is a write.

Both ask for fewer than `2 ^ 64` bytes in the blocks. Where blocks lie end to end past that, their
ends are no offsets; below it no index, slice, sum or difference on the way is out of range.
-/

namespace SpillStorage

namespace Space

variable {s s' : Space} {offset size : Nat} {bytes view : List UInt8}

/-- The search stops at the end of the space, also inside of a block. -/
theorem Sound.findMemory?_leastOf (hs : s.Sound) (hsize : 0 < size) (start limit : Nat) :
    Chain.LeastOf (Chain.windows s.chain.blocks start (min limit s.logicalSize) size)
      (s.findMemory? start limit size) := by
  have hbound := hs.bounded
  unfold Space.findMemory?
  rw [if_neg (Nat.pos_iff_ne_zero.1 hsize)]
  exact hs.layout.joint.findMemory?_leastOf hsize (by omega) start

/-- No check fails in the search. -/
theorem Sound.findMemoryChecked_eq (hs : s.Sound) (hbound : s.physicalSize < Offset.bound)
    (hsize : 0 < size) (start limit : Nat) :
    s.chain.findMemoryChecked start (min limit s.logicalSize) size =
      some (s.findMemory? start limit size) := by
  have hseated := hs.layout.seated
  rw [Chain.findMemoryChecked_eq hseated.joint hseated.buffers hbound]
  unfold Space.findMemory?
  rw [if_neg (Nat.pos_iff_ne_zero.1 hsize)]

theorem Stands.inRange {h : Host} (ha : Stands (s, h)) (hbound : s.physicalSize < Offset.bound) :
    s.chain.InRange s.files.files h.disk := by
  obtain ⟨others, hhoused⟩ := ha.housed
  exact ha.sound.layout.seated.inRange hhoused.distinct hhoused.backed hbound

theorem Sound.inMemory?_isSome_iff (hs : s.Sound) : (s.inMemory? offset size).isSome = true ↔
    offset + size ≤ s.logicalSize ∧ Chain.Window s.chain.blocks size offset := by
  rw [← covers_iff hs, ← hs.layout.joint.inMemory?_isSome_iff]
  unfold Space.inMemory?
  split
  · next hcovers => rw [hcovers, eq_self, true_and]
  · next hcovers => simp [hcovers]

/-- Bytes can be stored where there is a view. -/
theorem isSome_storeInMemory? (s : Space) (offset size : Nat) (bytes : List UInt8) :
    (s.storeInMemory? offset size bytes).isSome = (s.inMemory? offset size).isSome := by
  unfold storeInMemory? inMemory?
  split
  · rw [Option.isSome_map, Chain.isSome_storeInMemory?]
  · rfl

theorem length_view (h : s.inMemory? offset size = some view) : view.length = size := by
  unfold inMemory? at h
  split at h
  · obtain ⟨b, -, data, -, -, -, -, rfl⟩ := Chain.inMemory?_some h
    exact data.length_slice _ _
  · cases h

/-- The view shows what reading gives. -/
theorem read_of_view (h : s.inMemory? offset size = some view) (host : Host) :
    s.read host offset size = .whole view := by
  unfold inMemory? at h
  unfold read
  split at h
  · next hcovers =>
    rw [if_pos hcovers]
    exact Chain.read_of_view h _ _
  · cases h

/-- A store into the view is a write. -/
theorem write_of_store (hs : s.Sound) (h : s.storeInMemory? offset size bytes = some s')
    (hfits : bytes.length ≤ size) (host : Host) :
    s.write host offset bytes = .ok (s', host) () := by
  unfold storeInMemory? at h
  split at h
  · next hcovers =>
    obtain ⟨chain, hchain, rfl⟩ := Option.map_eq_some_iff.1 h
    rw [covers_iff hs] at hcovers
    unfold write
    rw [if_pos ((covers_iff hs).2 (by omega)), Chain.write_of_store hchain hfits]
    rfl
  · cases h

/-- After a store the view shows the bytes, and behind them what it showed. -/
theorem view_of_store (h : s.storeInMemory? offset size bytes = some s')
    (hfits : bytes.length ≤ size) (hview : s.inMemory? offset size = some view) :
    s'.inMemory? offset size = some (bytes ++ view.drop bytes.length) := by
  unfold storeInMemory? at h
  unfold inMemory? at hview
  split at h
  · next hcovers =>
    rw [if_pos hcovers] at hview
    obtain ⟨chain, hchain, rfl⟩ := Option.map_eq_some_iff.1 h
    unfold inMemory?
    rw [if_pos (show Space.covers { s with chain := chain } offset size = true from hcovers)]
    exact Chain.view_of_store hchain hfits hview
  · cases h

end Space

namespace Session

/-- The first piece in memory, at any point of a session, for the space of any tenant whose blocks
have fewer than `2 ^ 64` bytes. A search for `size` bytes, at least one, finds the least offset from
`start` on where they lie in one memory block and end at or before `limit` and inside the space, and
there is a view of what it finds; if there is no such offset, it finds nothing. In a chain of fewer
than `2 ^ 64` bytes it does the same, however the chain was built, but goes as far as the blocks. In
both no index, slice, sum or difference on the way is out of range. -/
theorem first_window {settings : Settings} {registry : Registry}
    (hregistry : Registry.ofSettings settings = .ok registry) (disk : Disk) (heap : Nat)
    (actions : List Action) {name : String} {l : Lodging}
    (hl : ((ofHost ⟨registry, disk, heap⟩).run actions).lodging? name = some l)
    (hbound : l.tenant.inner.physicalSize < Offset.bound) {size : Nat} (hsize : 0 < size) :
    let s := l.tenant.inner
    (∀ start limit,
      (∀ place, s.findMemory? start limit size = some place ↔
        IsLeast (Chain.windows s.chain.blocks start (min limit s.logicalSize) size) place) ∧
      (s.findMemory? start limit size = none ↔
        Chain.windows s.chain.blocks start (min limit s.logicalSize) size = ∅) ∧
      (∀ place, s.findMemory? start limit size = some place →
        (s.inMemory? place size).isSome = true) ∧
      s.chain.findMemoryChecked start (min limit s.logicalSize) size =
        some (s.findMemory? start limit size)) ∧
    ∀ c : Chain, c.Built → c.size < Offset.bound → ∀ start limit, limit < Offset.bound →
      (∀ place, c.findMemory? start limit size = some place ↔
        IsLeast (Chain.windows c.blocks start limit size) place) ∧
      (c.findMemory? start limit size = none ↔ Chain.windows c.blocks start limit size = ∅) ∧
      (∀ place, c.findMemory? start limit size = some place →
        (c.inMemory? place size).isSome = true) ∧
      c.findMemoryChecked start limit size = some (c.findMemory? start limit size) := by
  intro s
  have hs : s.Sound := (stands_run hregistry disk heap actions hl).sound
  refine ⟨fun start limit => ?_, fun c hc hfits start limit hlimit => ?_⟩
  · have hleast := hs.findMemory?_leastOf hsize start limit
    refine ⟨hleast.eq_some_iff, hleast.eq_none_iff, fun place hfound => ?_,
      hs.findMemoryChecked_eq hbound hsize start limit⟩
    obtain ⟨⟨-, hend, hwindow⟩, -⟩ := (hleast.eq_some_iff place).1 hfound
    exact hs.inMemory?_isSome_iff.2 ⟨by omega, hwindow⟩
  · have hleast := hc.joint.findMemory?_leastOf hsize hlimit start
    refine ⟨hleast.eq_some_iff, hleast.eq_none_iff, fun place hfound => ?_,
      Chain.findMemoryChecked_eq hc.joint hc.filled hfits start limit size⟩
    obtain ⟨⟨-, -, hwindow⟩, -⟩ := (hleast.eq_some_iff place).1 hfound
    exact hc.joint.inMemory?_isSome_iff.2 hwindow

/-- Ten bytes in memory, twenty in a file and six in memory again; and a chain of such blocks that
goes on past the limit of the search. -/
theorem first_window_past_file :
    let actions : List Action := [.openSpace "a" true {}, .onSpace "a" (.extend 10),
      .onSpace "a" (.extend 20), .onSpace "a" (.extend 6)]
    let σ := (ofHost ⟨⟨Settings.exact [⟨Path.ofString "/tmp", none⟩] 16, 0, [0], 0⟩,
      Disk.standard, 64⟩).run actions
    let c := ((Chain.empty.pushMemory (Buffer.zeros 4) true).pushFile 0 0 8).2.pushMemory
      (Buffer.zeros 8) false
    ∃ l, σ.lodging? "a" = some l ∧
      IsLeast (Chain.windows l.tenant.inner.chain.blocks 5 (min 40 l.tenant.inner.logicalSize) 6)
        30 ∧
      Chain.windows l.tenant.inner.chain.blocks 5 (min 35 l.tenant.inner.logicalSize) 6 = ∅ ∧
      IsLeast (Chain.windows c.blocks 2 18 6) 12 ∧ Chain.windows c.blocks 2 17 6 = ∅ := by
  intro actions σ c
  have hregistry : Registry.ofSettings (Settings.exact [⟨Path.ofString "/tmp", none⟩] 16) =
    .ok ⟨Settings.exact [⟨Path.ofString "/tmp", none⟩] 16, 0, [0], 0⟩ := rfl
  obtain ⟨l, hl, hbound, hfound, hnone⟩ : ∃ l, σ.lodging? "a" = some l ∧
      l.tenant.inner.physicalSize < Offset.bound ∧
      l.tenant.inner.findMemory? 5 40 6 = some 30 ∧ l.tenant.inner.findMemory? 5 35 6 = none :=
    ⟨_, rfl, by decide +kernel, by decide +kernel, by decide +kernel⟩
  obtain ⟨hspace, hchain⟩ :=
    first_window hregistry Disk.standard 64 actions hl hbound (by decide : 0 < 6)
  have hc : c.Built := ((Chain.Built.empty.pushMemory _ _).pushFile _ _ _).pushMemory _ _
  have hfits : c.size < Offset.bound := by decide +kernel
  refine ⟨l, hl, ?_, ?_, ?_, ?_⟩
  · exact ((hspace 5 40).1 30).1 hfound
  · exact (hspace 5 35).2.1.1 hnone
  · exact ((hchain c hc hfits 2 18 (by decide)).1 12).1 (by decide +kernel)
  · exact (hchain c hc hfits 2 17 (by decide)).2.1.1 (by decide +kernel)

/-- Views, reads and writes agree, at any point of a session, for the space of any tenant whose
blocks have fewer than `2 ^ 64` bytes. There is a view of a range, to look at or to store into,
exactly if the space covers the range and one memory block holds its start and all of it. The view
shows the bytes that reading the range gives. Bytes stored over its start, no more than it has,
leave the space and the host as writing them there does; then the view shows them. No index, slice,
sum or difference on the way is out of range. -/
theorem views_agree {settings : Settings} {registry : Registry}
    (hregistry : Registry.ofSettings settings = .ok registry) (disk : Disk) (heap : Nat)
    (actions : List Action) {name : String} {l : Lodging}
    (hl : ((ofHost ⟨registry, disk, heap⟩).run actions).lodging? name = some l)
    (hbound : l.tenant.inner.physicalSize < Offset.bound) :
    let s := l.tenant.inner
    let h := ((ofHost ⟨registry, disk, heap⟩).run actions).hostOf l
    s.chain.InRange s.files.files h.disk ∧ ∀ offset size,
      ((s.inMemory? offset size).isSome = true ↔
        offset + size ≤ s.logicalSize ∧ Chain.Window s.chain.blocks size offset) ∧
      (∀ bytes, (s.storeInMemory? offset size bytes).isSome = (s.inMemory? offset size).isSome) ∧
      (∀ view, s.inMemory? offset size = some view →
        view.length = size ∧ s.read h offset size = .whole view) ∧
      ∀ bytes s', bytes.length ≤ size → s.storeInMemory? offset size bytes = some s' →
        s.write h offset bytes = .ok (s', h) () ∧
        ∀ view, s.inMemory? offset size = some view →
          s'.inMemory? offset size = some (bytes ++ view.drop bytes.length) := by
  intro s h
  have hstands : Space.Stands (s, h) := stands_run hregistry disk heap actions hl
  have hs : s.Sound := hstands.sound
  refine ⟨hstands.inRange hbound, fun offset size => ?_⟩
  refine ⟨hs.inMemory?_isSome_iff, s.isSome_storeInMemory? offset size,
    fun view hview => ⟨Space.length_view hview, Space.read_of_view hview h⟩, ?_⟩
  intro bytes s' hfits hstore
  exact ⟨Space.write_of_store hs hstore hfits h,
    fun view hview => Space.view_of_store hstore hfits hview⟩

/-- Ten bytes in memory and ten in a file. The last four of the first ten can be viewed, but not
with the byte behind them, and three bytes are stored over them. -/
theorem views_agree_at_end :
    let actions : List Action := [.openSpace "a" true {}, .onSpace "a" (.extend 10),
      .onSpace "a" (.extend 10), .onSpace "a" (.write 6 [1, 2, 3, 4, 5])]
    let σ := (ofHost ⟨⟨Settings.exact [⟨Path.ofString "/tmp", none⟩] 16, 0, [0], 0⟩,
      Disk.standard, 64⟩).run actions
    ∃ l, σ.lodging? "a" = some l ∧
      l.tenant.inner.read (σ.hostOf l) 6 4 = .whole [1, 2, 3, 4] ∧
      (l.tenant.inner.storeInMemory? 6 5 [7]).isSome = false ∧
      ∃ s', l.tenant.inner.write (σ.hostOf l) 6 [7, 8, 9] = .ok (s', σ.hostOf l) () ∧
        s'.inMemory? 6 4 = some [7, 8, 9, 4] := by
  intro actions σ
  have hregistry : Registry.ofSettings (Settings.exact [⟨Path.ofString "/tmp", none⟩] 16) =
    .ok ⟨Settings.exact [⟨Path.ofString "/tmp", none⟩] 16, 0, [0], 0⟩ := rfl
  obtain ⟨l, hl, hbound, hview, hnone, s', hstore⟩ : ∃ l, σ.lodging? "a" = some l ∧
      l.tenant.inner.physicalSize < Offset.bound ∧
      l.tenant.inner.inMemory? 6 4 = some [1, 2, 3, 4] ∧ l.tenant.inner.inMemory? 6 5 = none ∧
      ∃ s', l.tenant.inner.storeInMemory? 6 4 [7, 8, 9] = some s' :=
    ⟨_, rfl, by decide +kernel, by decide +kernel, by decide +kernel, _, rfl⟩
  obtain ⟨-, hagree⟩ := views_agree hregistry Disk.standard 64 actions hl hbound
  obtain ⟨-, -, hread, hwrite⟩ := hagree 6 4
  obtain ⟨hsame, hshown⟩ := hwrite [7, 8, 9] s' (by decide) hstore
  refine ⟨l, hl, (hread _ hview).2, ?_, s', hsame, hshown _ hview⟩
  rw [(hagree 6 5).2.1 [7], hnone]
  rfl

end Session

end SpillStorage

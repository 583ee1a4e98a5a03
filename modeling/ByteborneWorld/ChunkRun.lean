import ByteborneWorld.Lts
import ByteborneWorld.SendModel
import ByteborneWorld.Tiling

/-!
The chunks of the send buffers over any number of opens, writes and closes: where each lies, and
that a closed chunk keeps its bytes while it waits to be sent.
-/

namespace ByteborneWorld.ChunkRun

open ByteborneWorld.Memory ByteborneWorld.SendModel ByteborneWorld.Tiling ByteborneWorld.Lts

/-- The manager, the chunk that is open, and those that were closed, in order. -/
structure Chunks where
  manager : SendBufferManager
  opened : Option SendBufferChunk
  closed : List SendBufferChunk

inductive Act
  | «open» (size : ℕ)
  /-- bytes are stored in the open chunk -/
  | store (offset : ℕ) (bytes : List UInt8)
  | onWritten (bytesWritten : ℕ)
  | close

def init : Chunks := ⟨.new, none, []⟩

/-- A chunk is opened when none is open. It is written to and closed once; no more is stored in
it or reported as written than was asked for. -/
def step (s : Chunks) : Act → Option Chunks
  | .«open» size =>
    if s.opened = none ∧ size ≤ DefaultSize then
      some { s with manager := (s.manager.open size).1, opened := some (s.manager.open size).2 }
    else none
  | .store offset bytes => s.opened.bind fun c =>
    if offset + bytes.length ≤ c.openSize then
      some { s with
        manager := s.manager.set c.owner
          ((s.manager.heap c.owner).store (c.chunk + offset) bytes)
          ((SendBuffer.size_store _ _ _).trans (s.manager.sizes _)) }
    else none
  | .onWritten bytesWritten => s.opened.bind fun c =>
    if bytesWritten ≤ c.getUnwrittenSize then
      some { s with opened := some (c.onWritten bytesWritten) }
    else none
  | .close => s.opened.bind fun c =>
    if h : c.writeOffset ≤ (s.manager.heap c.owner).getFreeSize then
      some ⟨s.manager.set c.owner ((s.manager.heap c.owner).close c.writeOffset h)
        ((SendBuffer.size_close _ _ h).trans (s.manager.sizes _)), none,
        s.closed ++ [{ c with closed := true }]⟩
    else none

/-! ### The property -/

def written (c : SendBufferChunk) : Range := ⟨c.chunk, c.writeOffset⟩

def room (c : SendBufferChunk) : Range := ⟨c.chunk, c.openSize⟩

/-- The written ranges of those chunks that are in one buffer. -/
def carved (closed : List SendBufferChunk) (i : ℕ) : List Range :=
  (closed.filter fun c => c.owner = i).map written

/-- The assertions of the calls an act makes. -/
def Asserts (s : Chunks) : Act → Prop
  | .«open» size => s.opened = none → size ≤ DefaultSize →
    s.manager.currentBuffer.closed = true ∧ s.manager.OpenAsserts size ∧
      ((s.manager.open size).1.heap (s.manager.open size).2.owner).closed = false ∧
      size ≤ ((s.manager.open size).1.heap (s.manager.open size).2.owner).getFreeSize
  | .store _ _ => True
  | .onWritten bytesWritten => ∀ c, s.opened = some c → bytesWritten ≤ c.getUnwrittenSize →
    c.closed = false ∧ bytesWritten ≤ c.getUnwrittenSize
  | .close => ∀ c, s.opened = some c → c.closed = false ∧
    (s.manager.heap c.owner).closed = false ∧
      c.writeOffset ≤ (s.manager.heap c.owner).getFreeSize

/-- The closed chunks of each buffer fill it from its beginning; the open one lies behind
them. -/
structure NoAlias (s : Chunks) : Prop where
  tiles : ∀ i ≤ s.manager.current, Tiles 0 (carved s.closed i) (s.manager.heap i).chunkOffset
  total : ∀ i ≤ s.manager.current,
    ((carved s.closed i).map Range.length).sum = (s.manager.heap i).chunkOffset
  disjoint : ∀ i ≤ s.manager.current, (carved s.closed i).Pairwise Range.Disjoint
  closed_le : ∀ c ∈ s.closed, c.owner ≤ s.manager.current ∧ (written c).stop ≤ DefaultSize
  opened : ∀ c, s.opened = some c → (room c).start = (s.manager.heap c.owner).chunkOffset ∧
    (room c).stop ≤ DefaultSize ∧
    ∀ d ∈ s.closed, d.owner = c.owner → (written d).Disjoint (room c)

/-! ### One step -/

/-- Where the chunks are. -/
structure Inv (s : Chunks) : Prop where
  tiles : ∀ i ≤ s.manager.current, Tiles 0 (carved s.closed i) (s.manager.heap i).chunkOffset
  owner_le : ∀ c ∈ s.closed, c.owner ≤ s.manager.current
  idle : s.opened = none → s.manager.currentBuffer.closed = true
  opened : ∀ c, s.opened = some c → c.owner = s.manager.current ∧ c.closed = false ∧
    s.manager.currentBuffer.closed = false ∧ c.chunk = s.manager.currentBuffer.chunkOffset ∧
    c.openSize ≤ s.manager.currentBuffer.getFreeSize ∧ c.writeOffset ≤ c.openSize

lemma inv_init : Inv init where
  tiles i _ := rfl
  owner_le c h := by cases h
  idle _ := rfl
  opened c h := by cases h

variable {s s' : Chunks} {a : Act}

lemma chunkOffset_set (g : SendBufferManager) (i j : ℕ) (b : SendBuffer)
    (h : b.size = DefaultSize) : ((g.set i b h).heap j).chunkOffset =
      if j = i then b.chunkOffset else (g.heap j).chunkOffset := by
  simp only [SendBufferManager.set]
  split_ifs <;> rfl

lemma chunkOffset_open (g : SendBufferManager) (size i : ℕ) :
    ((g.open size).1.heap i).chunkOffset = ((g.select size).heap i).chunkOffset := by
  simp only [SendBufferManager.open, SendBufferManager.set]
  split_ifs with heq
  · rw [heq]
    rfl
  · rfl

lemma carved_concat (closed : List SendBufferChunk) (c : SendBufferChunk) (i : ℕ) :
    carved (closed ++ [c]) i = carved closed i ++ if c.owner = i then [written c] else [] := by
  simp only [carved, List.filter_append, List.map_append]
  congr 1
  split_ifs with heq <;> simp [heq]

lemma Inv.carved_of_lt (h : Inv s) {i : ℕ} (hi : s.manager.current < i) :
    carved s.closed i = [] := by
  rw [carved, List.map_eq_nil_iff, List.filter_eq_nil_iff]
  intro c hc heq
  have hle := h.owner_le c hc
  have : c.owner = i := by simpa using heq
  omega

lemma Inv.tiles_select (h : Inv s) (size : ℕ) {i : ℕ}
    (hi : i ≤ (s.manager.select size).current) :
    Tiles 0 (carved s.closed i) ((s.manager.select size).heap i).chunkOffset := by
  obtain ⟨hle, hheap⟩ := SendBufferManager.select_frame (g := s.manager) size
  rcases Nat.lt_or_ge s.manager.current i with hlt | hge
  · rw [h.carved_of_lt hlt]
    revert hi
    unfold SendBufferManager.select
    split_ifs
    · intro hi
      obtain rfl : i = s.manager.current + 1 := Nat.le_antisymm hi hlt
      simp [SendBuffer.create, Tiles]
    · exact fun hi => absurd hi (not_le.mpr hlt)
  · rw [hheap i hge]
    exact h.tiles i hge

lemma Inv.open (h : Inv s) {size : ℕ} (hsize : size ≤ DefaultSize) :
    Inv { s with manager := (s.manager.open size).1, opened := some (s.manager.open size).2 } where
  tiles i hi := by
    rw [chunkOffset_open]
    exact h.tiles_select size hi
  owner_le c hc :=
    le_trans (h.owner_le c hc) (SendBufferManager.select_frame (g := s.manager) size).1
  idle hn := by cases hn
  opened c hc := by
    have hfree := (SendBufferManager.size_le_free_select (g := s.manager)).mpr hsize
    cases hc
    simpa [SendBufferManager.open, SendBufferManager.currentBuffer, SendBuffer.opened,
      SendBuffer.getFreeSize] using hfree

lemma Inv.store (h : Inv s) {c : SendBufferChunk} (hc : s.opened = some c) (offset : ℕ)
    (bytes : List UInt8) :
    Inv { s with
      manager := s.manager.set c.owner
        ((s.manager.heap c.owner).store (c.chunk + offset) bytes)
        ((SendBuffer.size_store _ _ _).trans (s.manager.sizes _)) } where
  tiles i hi := by
    rw [chunkOffset_set]
    split_ifs with heq
    · rw [heq] at hi ⊢
      exact h.tiles _ hi
    · exact h.tiles i hi
  owner_le := h.owner_le
  idle hn := by
    rw [hc] at hn
    cases hn
  opened d hd := by
    rw [hc] at hd
    cases hd
    have ho := h.opened c hc
    simpa [ho.1, SendBufferManager.currentBuffer, SendBuffer.store, SendBuffer.getFreeSize]
      using ho

lemma Inv.onWritten (h : Inv s) {c : SendBufferChunk} (hc : s.opened = some c)
    {bytesWritten : ℕ} (hle : bytesWritten ≤ c.getUnwrittenSize) :
    Inv { s with opened := some (c.onWritten bytesWritten) } where
  tiles := h.tiles
  owner_le := h.owner_le
  idle hn := by cases hn
  opened d hd := by
    cases hd
    obtain ⟨howner, hclosed, hopen, hchunk, hfree, hwritten⟩ := h.opened c hc
    refine ⟨howner, hclosed, hopen, hchunk, hfree, ?_⟩
    simp only [SendBufferChunk.getUnwrittenSize, SendBufferChunk.onWritten] at hle ⊢
    omega

lemma Inv.close (h : Inv s) {c : SendBufferChunk} (hc : s.opened = some c)
    (hle : c.writeOffset ≤ (s.manager.heap c.owner).getFreeSize) :
    Inv ⟨s.manager.set c.owner ((s.manager.heap c.owner).close c.writeOffset hle)
      ((SendBuffer.size_close _ _ hle).trans (s.manager.sizes _)), none,
      s.closed ++ [{ c with closed := true }]⟩ where
  tiles i hi := by
    obtain ⟨howner, -, -, hchunk, -⟩ := h.opened c hc
    rw [carved_concat, chunkOffset_set]
    by_cases heq : i = c.owner
    · subst heq
      rw [if_pos rfl, if_pos rfl]
      have hstart : c.chunk = (s.manager.heap c.owner).chunkOffset := by rw [howner]; exact hchunk
      have hcat := (h.tiles _ hi).concat (r := written { c with closed := true }) hstart
      simpa [SendBuffer.close, Range.stop, written, hstart] using hcat
    · rw [if_neg heq, if_neg (Ne.symm heq), List.append_nil]
      exact h.tiles i hi
  owner_le d hd := by
    rcases List.mem_append.mp hd with hd | hd
    · exact h.owner_le d hd
    · rw [List.mem_singleton.mp hd]
      exact (h.opened c hc).1.le
  idle _ := by
    have howner := (h.opened c hc).1
    simp [SendBufferManager.currentBuffer, SendBufferManager.set, SendBuffer.close, howner]
  opened d hd := by cases hd

/-! ### Every run -/

lemma step_cases (hs : step s a = some s') :
    (∃ size ≤ DefaultSize, a = .«open» size ∧ s.opened = none ∧
      s' = { s with
        manager := (s.manager.open size).1
        opened := some (s.manager.open size).2 }) ∨
    (∃ c offset bytes, a = .store offset bytes ∧ s.opened = some c ∧
      offset + bytes.length ≤ c.openSize ∧ s' = { s with
        manager := s.manager.set c.owner
          ((s.manager.heap c.owner).store (c.chunk + offset) bytes)
          ((SendBuffer.size_store _ _ _).trans (s.manager.sizes _)) }) ∨
    (∃ c n, a = .onWritten n ∧ s.opened = some c ∧ n ≤ c.getUnwrittenSize ∧
      s' = { s with opened := some (c.onWritten n) }) ∨
    ∃ c h, a = .close ∧ s.opened = some c ∧
      s' = ⟨s.manager.set c.owner ((s.manager.heap c.owner).close c.writeOffset h)
        ((SendBuffer.size_close _ _ h).trans (s.manager.sizes _)), none,
        s.closed ++ [{ c with closed := true }]⟩ := by
  cases a with
  | «open» size =>
    simp only [step] at hs
    split_ifs at hs with h
    cases hs
    exact .inl ⟨size, h.2, rfl, h.1, rfl⟩
  | store offset bytes =>
    obtain ⟨c, hc, hs⟩ := Option.bind_eq_some_iff.mp hs
    split_ifs at hs with h
    cases hs
    exact .inr (.inl ⟨c, offset, bytes, rfl, hc, h, rfl⟩)
  | onWritten n =>
    obtain ⟨c, hc, hs⟩ := Option.bind_eq_some_iff.mp hs
    split_ifs at hs with h
    cases hs
    exact .inr (.inr (.inl ⟨c, n, rfl, hc, h, rfl⟩))
  | close =>
    obtain ⟨c, hc, hs⟩ := Option.bind_eq_some_iff.mp hs
    split_ifs at hs with h
    cases hs
    exact .inr (.inr (.inr ⟨c, h, rfl, hc, rfl⟩))

lemma Inv.step (h : Inv s) (hs : ChunkRun.step s a = some s') : Inv s' := by
  rcases step_cases hs with ⟨size, hsize, -, -, rfl⟩ | ⟨c, offset, bytes, -, hc, -, rfl⟩ |
    ⟨c, n, -, hc, hn, rfl⟩ | ⟨c, hle, -, hc, rfl⟩
  · exact h.open hsize
  · exact h.store hc offset bytes
  · exact h.onWritten hc hn
  · exact h.close hc hle

lemma Inv.stop_le (h : Inv s) {c : SendBufferChunk} (hc : c ∈ s.closed) :
    (written c).stop ≤ (s.manager.heap c.owner).chunkOffset :=
  ((h.tiles _ (h.owner_le c hc)).bounds
    (List.mem_map.mpr ⟨c, List.mem_filter.mpr ⟨hc, by simp⟩, rfl⟩)).2

lemma Inv.noAlias (h : Inv s) : NoAlias s where
  tiles := h.tiles
  total i hi := by simpa using (h.tiles i hi).sum_length
  disjoint i hi := (h.tiles i hi).disjoint
  closed_le c hc := by
    have hle := (s.manager.heap c.owner).chunk_le
    rw [s.manager.sizes] at hle
    exact ⟨h.owner_le c hc, le_trans (h.stop_le hc) hle⟩
  opened c hc := by
    obtain ⟨howner, -, -, hchunk, hfree, -⟩ := h.opened c hc
    have hle := s.manager.currentBuffer.chunk_le
    have hsize := s.manager.sizes s.manager.current
    have hstart : (room c).start = (s.manager.heap c.owner).chunkOffset := by
      rw [howner]; exact hchunk
    refine ⟨hstart, ?_, fun d hd heq => .inl ?_⟩
    · simp only [room, Range.stop, SendBuffer.getFreeSize,
        SendBufferManager.currentBuffer] at hchunk hfree hle ⊢
      omega
    · rw [hstart, ← heq]
      exact h.stop_le hd

lemma Inv.fits (h : Inv s) {c : SendBufferChunk} (hc : s.opened = some c) :
    c.writeOffset ≤ (s.manager.heap c.owner).getFreeSize := by
  obtain ⟨howner, -, -, -, hfree, hle⟩ := h.opened c hc
  rw [howner]
  exact le_trans hle hfree

/-- **All assertions hold.** -/
lemma Inv.asserts (h : Inv s) (a : Act) : Asserts s a := by
  cases a with
  | «open» size =>
    intro hnone hsize
    have hidle := h.idle hnone
    have hfree := (SendBufferManager.size_le_free_select (g := s.manager)).mpr hsize
    refine ⟨hidle, ⟨SendBufferManager.closed_select size hidle, hfree⟩, ?_, ?_⟩
    · simp [SendBufferManager.open, SendBuffer.opened]
    · simpa [SendBufferManager.open, SendBufferManager.currentBuffer, SendBuffer.opened,
        SendBuffer.getFreeSize] using hfree
  | store offset bytes => trivial
  | onWritten n => exact fun c hc hn => ⟨(h.opened c hc).2.1, hn⟩
  | close =>
    intro c hc
    obtain ⟨howner, hclosed, hopen, -⟩ := h.opened c hc
    exact ⟨hclosed, by rw [howner]; exact hopen, h.fits hc⟩

/-- **A closed chunk keeps its bytes**, whatever is serialized later. -/
lemma Inv.bytes_eq (h : Inv s) (hs : ChunkRun.step s a = some s') {d : SendBufferChunk}
    (hd : d ∈ s.closed) : d ∈ s'.closed ∧ s'.manager.bytes d = s.manager.bytes d := by
  have hstored : s.manager.Stored d := ⟨h.owner_le d hd, h.stop_le hd⟩
  rcases step_cases hs with ⟨size, -, -, -, rfl⟩ | ⟨c, offset, bytes, -, hc, -, rfl⟩ |
    ⟨c, n, -, hc, -, rfl⟩ | ⟨c, hle, -, hc, rfl⟩
  · obtain ⟨hsel, hbytes⟩ := SendBufferManager.stored_select size hstored
    refine ⟨hd, Eq.trans ?_ hbytes⟩
    exact (SendBufferManager.stored_set (b := (s.manager.select size).currentBuffer.opened)
      ((s.manager.select size).sizes _) hsel (le_refl _) fun _ _ _ => rfl).2
  · obtain ⟨howner, -, -, hchunk, -⟩ := h.opened c hc
    refine ⟨hd, ?_⟩
    have hset := SendBufferManager.stored_set (c := d)
      (b := s.manager.currentBuffer.store (c.chunk + offset) bytes)
      ((SendBuffer.size_store _ _ _).trans (s.manager.sizes _)) hstored (le_refl _)
      -- what is stored lies behind all that was closed
      fun off n hoff => read_write_disjoint _ _ (.inl (by rw [hchunk]; omega))
    simpa [howner, SendBufferManager.currentBuffer] using hset.2
  · exact ⟨hd, rfl⟩
  · obtain ⟨howner, -⟩ := h.opened c hc
    refine ⟨List.mem_append_left _ hd, ?_⟩
    by_cases heq : d.owner = c.owner
    · simp [SendBufferManager.bytes, heq, SendBuffer.close]
    · simp [SendBufferManager.bytes, SendBufferManager.heap_set_ne heq]

/-- **Send chunks never alias.** In every run the written ranges of the closed chunks of each
buffer follow one another from its beginning, an open chunk lies behind them, no assertion
fails, and no step changes the bytes of a closed chunk. -/
theorem chunks_never_alias (h : Reachable step init s) :
    NoAlias s ∧ (∀ a, Asserts s a) ∧ (s.opened ≠ none → (step s .close).isSome) ∧
      ∀ a s', step s a = some s' → ∀ d ∈ s.closed,
        d ∈ s'.closed ∧ s'.manager.bytes d = s.manager.bytes d := by
  have hinv : Inv s := h.invariant (fun _ _ _ h hs => h.step hs) inv_init
  refine ⟨hinv.noAlias, hinv.asserts, fun hne => ?_, fun a s' hs d hd => hinv.bytes_eq hs hd⟩
  obtain ⟨c, hc⟩ := Option.ne_none_iff_exists'.mp hne
  simp [step, hc, hinv.fits hc]

/-- A chunk is closed with fewer bytes than it was opened for, and the next one is open. -/
def partlyWritten : List Act :=
  [.«open» 10, .store 0 [1, 2, 3], .onWritten 3, .close, .«open» 8]

/-- The second chunk begins where the bytes of the first end. -/
theorem chunks_never_alias_partlyWritten : ∃ s, run step init partlyWritten = some s ∧
    s.opened.map room = some ⟨3, 8⟩ ∧ NoAlias s := by
  refine ⟨_, rfl, rfl, (chunks_never_alias ⟨partlyWritten, rfl⟩).1⟩

end ByteborneWorld.ChunkRun

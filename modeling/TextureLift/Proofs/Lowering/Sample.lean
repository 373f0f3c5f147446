import TextureLift.Lowering.Query
import TextureLift.Proofs.Lowering.Register

/-!
# The code of queries and samples

Both kinds of fetches come to a request for a texel and a store of its first lanes, which is what
`Setting.fetch` does to the registers and requests. Queries take their coordinate from an input,
sample instructions from registers that were checked beforehand.
-/

namespace TextureLift

/-- The query that a description with an input and a sampler comes to. -/
def QueryDesc.resolved (q : QueryDesc) (input : Ref) (sampler : Option SamplerInfo) : Query where
  sampler := q.sampler
  coord := ⟨input, q.coordEncoding⟩
  storeEncoding := q.storeEncoding
  samplerEncoding := (sampler.map SamplerInfo.encoding).getD .f32
  destOffset := q.destOffset
  componentCount := (sampler.map SamplerInfo.componentCount).getD 4
  divisorLane := q.divisorLane

namespace Launch

open Builder Build Discipline Environment Lowering Number

variable {x : Launch} {F : Fault → Prop} {s s' : Emitter}

/-- What a program runs against in a launch. -/
def setting (x : Launch) (image : UInt32 → Ref) (input : UInt32 → List UInt32) : Setting where
  texels := x.texels
  image
  input
  slots := x.slots

/-! ## Requests -/

/-- The ids of a level of detail hold numbers, and they are its own whenever the launch agrees with
the module. -/
def GivesDetail (x : Launch) (s : Emitter) (lod : FetchLod) (d : Detail) : Prop :=
  ∃ d', x.HoldsDetail s.builder lod d' ∧ (x.Agrees s → d' = d)

theorem GivesDetail.implicit : x.GivesDetail s .implicit .implicit :=
  ⟨.implicit, trivial, fun _ => rfl⟩

theorem GivesDetail.projective : x.GivesDetail s .projective .projective :=
  ⟨.projective, trivial, fun _ => rfl⟩

/-- A fetch makes one request and leaves the registers alone. -/
theorem fetch_moves (hF : F .idsExhausted) {texture t : Ref} {coord : Coord} {k : Encoding}
    {lod : FetchLod} {d : Detail} {xs ys : List UInt32}
    (ht : s.builder.definition? texture = some (.var t .uniformConstant))
    (hc : (x.quiet F).Ensures (normalizeCoord coord) s.builder fun id b' => x.Holds b' id .f32 xs)
    (hxs : x.Agrees s → xs = ys) (hlod : x.GivesDetail s lod d) :
    (x.moving F).Ensures (liftM (fetch texture coord k lod)) s fun id s' =>
      x.GivesFor s' id k
        (x.texels (x.state s).samples.length (d.request texture ys)).lanes ∧
      (x.Agrees s' → x.state s' =
        { x.state s with samples := (x.state s).samples ++ [d.request texture ys] }) := by
  obtain ⟨d', hd', heq⟩ := hlod
  refine Ensures.assume fun hk => ?_
  refine (lift_steady (fetch_ensures hF ht hc hd') fun _ b h => ⟨[], ?_, by simp⟩).imp
    fun id s' m h => ?_
  · rw [List.append_nil]
    exact h.2.1
  obtain ⟨⟨hid, -, hstate⟩, hreg⟩ := h
  have hsize : (x.state s).samples.length = (x.after s.builder).samples.size :=
    Array.length_toList
  refine ⟨⟨_, hid, rfl, fun ha => ?_⟩, fun ha => ?_⟩
  · rw [hsize, heq (m.agrees ha), hxs (m.agrees ha)]
  · obtain ⟨hm, hsamples⟩ := hstate ha.fits
    unfold Launch.state
    rw [word_of_memory hk m.leads.grows.table hreg hm, hsamples, heq (m.agrees ha),
      hxs (m.agrees ha), Array.toList_push]

/-- Storing the first lanes of a texel writes them in order. -/
theorem foldl_first (op : Operand) (slots : UInt32) (r : Registers) (texel : Texel) {count : UInt8}
    (hc : count ≤ 4) :
    (LaneMask.first count).lanes.foldl (fun r lane =>
      op.writeLane slots r (.ofNat lane.val) (numberFor texel.lanes (.ofNat lane.val))) r =
      op.write slots r count.toNat texel.lanes := by
  have hcases : count = 0 ∨ count = 1 ∨ count = 2 ∨ count = 3 ∨ count = 4 := by
    have h : count.toNat ≤ 4 := hc
    simp only [← UInt8.toNat_inj]
    show count.toNat = 0 ∨ count.toNat = 1 ∨ count.toNat = 2 ∨ count.toNat = 3 ∨ count.toNat = 4
    omega
  rcases hcases with rfl | rfl | rfl | rfl | rfl <;> rfl

/-- A fetch followed by a store. -/
theorem fetchStore_moves (hF : F .idsExhausted)
    (hmul : F .overflow ∨ x.slots.toNat * 4 < UInt32.size) {texture t : Ref} {coord : Coord}
    {k : Encoding} {lod : FetchLod} {d : Detail} {xs ys : List UInt32} (dest : Operand)
    {count : UInt8} (hcount : count ≤ 4)
    (hadd : F .overflow ∨ ∀ lane ∈ (LaneMask.first count).lanes, dest.InWords (.ofNat lane.val))
    (hk : k = dest.encoding ∨ k = .f32)
    (ht : s.builder.definition? texture = some (.var t .uniformConstant))
    (hc : (x.quiet F).Ensures (normalizeCoord coord) s.builder fun id b' => x.Holds b' id .f32 xs)
    (hxs : x.Agrees s → xs = ys) (hlod : x.GivesDetail s lod d) (image : UInt32 → Ref)
    (input : UInt32 → List UInt32) :
    (x.moving F).Ensures (do
        let texel ← (fetch texture coord k lod : Build Ref)
        Emit.store dest texel (.first count)) s fun _ s' => x.Agrees s' →
      x.state s' = (x.setting image input).fetch (x.state s) (d.request texture ys) dest
        count.toNat := by
  refine (fetch_moves hF ht hc hxs hlod).bind fun texel s₁ m₁ h₁ => ?_
  obtain ⟨⟨zs, hzs, hlen, heq⟩, hstate⟩ := h₁
  -- a texel that was fetched as floats may be stored in any encoding
  have hgive : x.GivesFor s₁ texel dest.encoding
      (x.texels (x.state s).samples.length (d.request texture ys)).lanes := by
    refine ⟨zs, ?_, hlen, heq⟩
    rcases hk with rfl | rfl
    · exact hzs
    · exact .inl (hzs.resolve_right fun h => nomatch h.1)
  refine (store_moves hF hmul hadd hgive (Nat.zero_lt_succ _)
    (Nat.le_of_eq (length_texel _))).imp fun _ s₂ m₂ h₂ ha => ?_
  rw [h₂ ha, hstate (m₂.agrees ha), foldl_first _ _ _ _ hcount]
  rfl

/-! ## Queries -/

/-- An input has its first contents throughout. -/
theorem contents_input (hk : x.Keeps s) (ha : x.Agrees s) {input t : Ref}
    (hi : s.builder.definition? input = some (.var t .input)) :
    x.contents s.builder input = x.firstContents input := by
  refine contents_of_kept hk.sound.wellFormed hi (by decide)
    ((hk.sound.runs ha.fits).kept input fun t' h => ?_)
  rw [hi] at h
  cases h

/-- The code of a query does what the query means. -/
theorem emitQuery_moves (hF : F .idsExhausted)
    (hmul : F .overflow ∨ x.slots.toNat * 4 < UInt32.size) {texture input t t' : Ref}
    {q : QueryDesc} {info : SamplerInfo} (hcount : info.componentCount ≤ 4)
    (hadd : F .overflow ∨ ∀ lane ∈ (LaneMask.first info.componentCount).lanes,
      (q.dest info.encoding).InWords (.ofNat lane.val))
    (ht : s.builder.definition? texture = some (.var t .uniformConstant))
    (hi : s.builder.definition? input = some (.var t' .input))
    (hdiv : ∀ lane, q.divisorLane = some lane → lane ≤ 3) (image : UInt32 → Ref)
    (inputs : UInt32 → List UInt32) :
    (x.moving F).Ensures (emitQuery texture (q.resolved input (some info))) s fun _ s' =>
      x.Agrees s' → x.state s' = (x.setting image inputs).fetch (x.state s)
        (q.detail.request texture (q.coord (x.firstContents input))) (q.dest info.encoding)
        info.componentCount.toNat := by
  refine Ensures.assume fun hk => ?_
  have hne : Storage.input ≠ .uniformConstant := by decide
  unfold emitQuery QueryDesc.detail QueryDesc.coord
  rw [Encoding.wordLanes_eq]
  cases hlane : q.divisorLane with
  | none =>
    have hlane' : (q.resolved input (some info)).divisorLane = none := hlane
    rw [hlane']
    refine fetchStore_moves hF hmul (q.dest info.encoding) hcount hadd (.inl rfl) ht
      (normalizeCoord_var hF hi hne) (fun ha => ?_) GivesDetail.implicit image inputs
    rw [contents_input hk ha hi]
  | some lane =>
    have hlane' : (q.resolved input (some info)).divisorLane = some lane := hlane
    rw [hlane']
    refine (Ensures.of_still (lift_quiet (projectedCoord_ensures hF hi hne
      (hdiv lane hlane)))).bind fun coord s₁ _ h₁ => ?_
    obtain ⟨r₁, hcoord, -⟩ := h₁
    have hxs (ha : x.Agrees s₁) := congrArg (fun words => [q.coordEncoding.element words 0,
      q.coordEncoding.element words 1, q.coordEncoding.element words lane.toUInt32])
      (contents_input hk (r₁.moves.agrees ha) hi)
    refine (fetchStore_moves hF hmul (q.dest info.encoding) hcount hadd (.inl rfl)
      (r₁.moves.leads.grows.table.definition ht)
      (Reckoning.normalizeCoord_value (R := x.reckoning hF) hcoord) hxs
      GivesDetail.projective image inputs).imp fun _ s₂ m₂ h₂ ha => ?_
    rw [h₂ ha, r₁.same (m₂.agrees ha)]
    rfl

/-! ## Operands of sample instructions -/

section Samples

variable {i : Sample} {info : SamplerInfo}

theorem succeeds_of_resting {ε α : Type} {a : ExceptT ε Emit α} {Q : α → Emitter → Prop}
    (h : (x.resting F).Succeeds a s Q) :
    (x.moving F).Succeeds a s fun v s' => (x.resting F).leads s s' ∧ Q v s' :=
  (Ensures.of_still h).imp fun _ _ _ ⟨hr, v, ho, hv⟩ => ⟨v, ho, hr, hv⟩

theorem readable_of_subset {op : Operand} {slots : UInt32} {lanes lanes' : List (Fin 4)}
    (h : op.readable slots lanes = true) (hl : lanes' ⊆ lanes) : op.readable slots lanes' = true := by
  unfold Operand.readable at h ⊢
  rw [Bool.or_eq_true] at h ⊢
  exact h.imp_right fun h => List.all_eq_true.2 fun lane hlane => List.all_eq_true.1 h lane (hl hlane)

/-- Operands that were checked do not fail to load. -/
theorem loadOrFail_succeeds (hF : F .idsExhausted)
    (hmul : F .overflow ∨ x.slots.toNat * 4 < UInt32.size) {op : Operand} {mask : LaneMask}
    {window : UInt8} (hne : mask.lanes ≠ []) (hr : op.readable x.slots mask.lanes = true) :
    (x.resting F).Succeeds (loadOrFail op mask window) s fun id s' =>
      (x.ledger hF).Gives s' id .f32 (op.read (x.state s).registers window mask.lanes) := by
  unfold loadOrFail
  refine (Succeeds.lift (Ledger.loadWindow_yields (L := x.ledger hF) hmul hne hr)).bind fun o s₁ _ h => ?_
  obtain ⟨id, rfl, hid⟩ := h
  exact Succeeds.pure id hid

/-- What the checks of an instruction that takes effect have found. -/
theorem of_takesEffect {slots : UInt32} (h : i.takesEffect slots = true) :
    ¬ 2 < i.dimension ∧ LodMode.ofSelector i.lodMode ≠ .replace ∧
      i.coordOperand.readable slots i.coordLanes = true ∧
      i.lodOperand.readable slots i.detailLanes = true := by
  unfold Sample.takesEffect at h
  rw [i.coordSource_eq, i.lodSource_eq] at h
  simp only [Bool.and_eq_true, decide_eq_true_eq, bne_iff_ne] at h
  obtain ⟨⟨⟨⟨hrank, -⟩, hmode⟩, hcoord⟩, hlod⟩ := h
  refine ⟨fun h2 => ?_, mt Sample.replace_iff.1 hmode, hcoord, hlod⟩
  have h2' : 2 < i.dimension.toNat := h2
  unfold Sample.rank at hrank
  omega

theorem loadCoord_succeeds (hF : F .idsExhausted)
    (hmul : F .overflow ∨ x.slots.toNat * 4 < UInt32.size) (hi : i.takesEffect x.slots = true) :
    (x.resting F).Succeeds (loadCoord (planOf i info).line) s fun id s' =>
      (x.ledger hF).Gives s' id .f32 (i.coord (x.state s).registers) := by
  obtain ⟨hd, -, hread, -⟩ := of_takesEffect hi
  obtain ⟨hlanes, -⟩ := lanes_coordMask hd
  have hne : i.coordLanes ≠ [] := by
    unfold Sample.coordLanes Sample.rank
    simp
  unfold loadCoord Sample.coord
  rw [i.coordSource_eq]
  rw [← hlanes] at hread hne ⊢
  refine (loadOrFail_succeeds hF hmul hne hread).bind fun coord s₁ r₁ hcoord => ?_
  by_cases h0 : i.dimension = 0
  · -- one dimension: a zero is put after the only lane
    have h1 : (planOf i info).line.dimension = 1 := by
      show i.dimension + 1 = 1
      rw [h0]
      rfl
    have hrank : i.rank = 1 := by
      unfold Sample.rank
      rw [h0]
      rfl
    rw [if_pos h1, if_pos hrank]
    refine (Succeeds.lift (lift_quiet ((x.reckoning hF).floatVectorType_ensures 2))).bind
      fun vec s₂ r₂ h₂ => ?_
    refine (Succeeds.lift (lift_quiet ((x.reckoning hF).floatConstant_ensures _))).bind
      fun zero s₃ r₃ h₃ => ?_
    obtain ⟨words, hwords, hlen, heq⟩ := hcoord.mono ((x.resting F).trans r₂ r₃).moves
    have hone : words.length = 1 := by
      rw [hlen]
      show (List.map _ _).length = 1
      rw [List.length_map]
      show (coordMask (i.dimension + 1)).lanes.length = 1
      rw [h0]
      rfl
    obtain ⟨w, rfl⟩ := List.length_eq_one_iff.1 hone
    have hpair : (x.reckoning hF).HoldEach s₃.builder [coord, zero] [w, Single.zero] :=
      .cons hwords (.cons h₃.1 .nil)
    have hpairType := (x.reckoning hF).lanes_of_laneType (h₂.1.mono r₃.moves.leads.grows.table)
    refine Succeeds.lift ((lift_quiet (Reckoning.construct_ensures (R := x.reckoning hF) hpair
      ((x.reckoning hF).admits_of_le (by simp)) hpairType)).imp
      fun id s₄ r₄ h₄ => ⟨_, h₄.1, ?_, fun ha => ?_⟩)
    · rw [List.length_append, ← hlen]
      rfl
    · have h5 := heq (r₄.moves.agrees ha)
      rw [show [w, Single.zero] = [w] ++ [Single.zero] from rfl, h5]
  · have h1 : (planOf i info).line.dimension ≠ 1 := by
      show i.dimension + 1 ≠ 1
      rcases dimension_cases hd with h | h | h <;> rw [h] <;> first | exact absurd h h0 | decide
    have hrank : i.rank ≠ 1 := by
      unfold Sample.rank
      rcases dimension_cases hd with h | h | h <;> rw [h] <;> first | exact absurd h h0 | decide
    rw [if_neg h1, if_neg hrank]
    exact Succeeds.pure _ hcoord

/-- Gradients are given by two values. -/
theorem GivesDetail.gradient {hF : F .idsExhausted} {dx dy : Ref} {us vs : List UInt32}
    (hx : (x.ledger hF).Gives s dx .f32 us) (hy : (x.ledger hF).Gives s dy .f32 vs) :
    x.GivesDetail s (.gradient dx dy) (.gradient us vs) := by
  obtain ⟨us', hx', -, hu⟩ := hx
  obtain ⟨vs', hy', -, hv⟩ := hy
  exact ⟨.gradient us' vs', ⟨hx', hy'⟩, fun ha => by rw [hu ha, hv ha]⟩

theorem GivesDetail.bias {hF : F .idsExhausted} {level : Ref} {y : UInt32}
    (h : (x.ledger hF).Gives s level .f32 [y]) : x.GivesDetail s (.bias level) (.bias y) := by
  obtain ⟨words, hw, hlen, heq⟩ := h
  obtain ⟨w, rfl⟩ := List.length_eq_one_iff.1 hlen
  exact ⟨.bias w, hw, fun ha => by rw [List.singleton_inj.1 (heq ha)]⟩

/-- Two loads from the same registers. -/
theorem loadPair_succeeds (hF : F .idsExhausted)
    (hmul : F .overflow ∨ x.slots.toNat * 4 < UInt32.size) {op : Operand} {mask mask' : LaneMask}
    {window window' : UInt8} (hne : mask.lanes ≠ []) (hr : op.readable x.slots mask.lanes = true)
    (hne' : mask'.lanes ≠ []) (hr' : op.readable x.slots mask'.lanes = true) :
    (x.resting F).Succeeds (do
      let dx ← (Emit.loadWindow op mask window).run
      let dy ← (Emit.loadWindow op mask' window').run
      match dx, dy with
      | some dx, some dy => return .gradient dx dy
      | _, _ => throw (.ofOperand op) : ExceptT Failure Emit FetchLod) s fun lod s' => x.GivesDetail s' lod
        (.gradient (op.read (x.state s).registers window mask.lanes)
          (op.read (x.state s).registers window' mask'.lanes)) := by
  refine (Succeeds.lift (Ledger.loadWindow_yields (L := x.ledger hF) hmul hne hr)).bind fun o s₁ r₁ h₁ => ?_
  obtain ⟨dx, rfl, hdx⟩ := h₁
  refine (Succeeds.lift (Ledger.loadWindow_yields (L := x.ledger hF) hmul hne' hr')).bind fun o s₂ r₂ h₂ => ?_
  obtain ⟨dy, rfl, hdy⟩ := h₂
  refine Succeeds.pure _ (GivesDetail.gradient (hdx.mono r₂.moves) (hdy.congr _ ?_ fun ha => ?_))
  · unfold Operand.read
    rw [List.length_map, List.length_map]
  · exact congrArg (fun st : ShaderState => op.read st.registers window' mask'.lanes)
      (r₁.same (r₂.moves.agrees ha)).symm

theorem rank_eq_three (hd : ¬ 2 < i.dimension) : i.rank = 3 ↔ i.dimension + 1 = 3 := by
  unfold Sample.rank
  rcases dimension_cases hd with h | h | h <;> rw [h] <;> decide

theorem loadLod_succeeds (hF : F .idsExhausted)
    (hmul : F .overflow ∨ x.slots.toNat * 4 < UInt32.size) (hi : i.takesEffect x.slots = true) :
    (x.resting F).Succeeds (loadLod (planOf i info).lodMode (planOf i info).line) s fun lod s' =>
      x.GivesDetail s' lod (i.detail (x.state s).registers) := by
  obtain ⟨hd, hrep, -, hread⟩ := of_takesEffect hi
  have hmode : (planOf i info).lodMode = .ofSelector i.lodMode := rfl
  have hlod : (planOf i info).line.lod = if LodMode.ofSelector i.lodMode = .implicit then none
      else some (i.lodOperand, lodMask (.ofSelector i.lodMode) (i.dimension + 1)) := rfl
  have hdim : (planOf i info).line.dimension = i.dimension + 1 := rfl
  unfold Sample.detailLanes at hread
  unfold loadLod Sample.detail
  rw [hmode, hlod, hdim, i.lodSource_eq]
  rcases i.lodMode_cases with ⟨hm, hn⟩ | ⟨hm, -⟩ | ⟨hm, hn⟩ | ⟨hm, hn⟩
  · rw [hm, hn]
    exact Succeeds.pure _ GivesDetail.implicit
  · exact absurd hm hrep
  · rw [hn] at hread
    rw [hm, hn]
    refine (loadOrFail_succeeds hF hmul (by decide) hread).bind fun level s₁ _ hlevel => ?_
    exact Succeeds.pure _ (GivesDetail.bias hlevel)
  · rw [hn, if_neg (by decide), if_pos rfl] at hread
    rw [hm, hn]
    show (x.resting F).Succeeds (loadGradients i.lodOperand (i.dimension + 1)) s fun lod s' =>
      x.GivesDetail s' lod (if i.rank = 3 then _ else _)
    unfold loadGradients
    by_cases h3 : i.rank = 3
    · rw [if_pos h3] at hread
      simp only [if_pos h3, if_pos ((rank_eq_three hd).1 h3)]
      exact loadPair_succeeds hF hmul (by decide) hread (by decide) hread
    · rw [if_neg h3] at hread
      simp only [if_neg h3, if_neg (mt (rank_eq_three hd).2 h3)]
      exact loadPair_succeeds hF hmul (by decide) (readable_of_subset hread (by decide))
        (by decide) (readable_of_subset hread (by decide))

/-- Destinations of instructions are among the words. -/
theorem inWords_destOperand (declared : Encoding) (lane : Fin 4) :
    (i.destOperand declared).InWords (.ofNat lane.val) := by
  have h1 : i.destIndex.toUInt32.toNat < 256 := by
    rw [UInt8.toNat_toUInt32]
    exact i.destIndex.toNat_lt
  have h2 : (UInt32.ofNat lane.val / (i.destOperand declared).encoding.lanesPerComponent).toNat < 4 :=
    div_lanesPerComponent_lt (by
      have h4 := lane.isLt
      rw [UInt32.lt_iff_toNat_lt, UInt32.toNat_ofNat_of_lt' (by show _ < 4294967296; omega)]
      exact h4)
  show i.destIndex.toUInt32.toNat + _ < 4294967296
  omega

/-- The code of a sample instruction does what the instruction means. -/
theorem emitSample_succeeds (hF : F .idsExhausted)
    (hmul : F .overflow ∨ x.slots.toNat * 4 < UInt32.size) {t : Ref}
    (hi : i.takesEffect x.slots = true) (hcount : info.componentCount ≤ 4)
    (ht : s.builder.definition? info.id = some (.var t .uniformConstant)) (image : UInt32 → Ref)
    (inputs : UInt32 → List UInt32) :
    (x.moving F).Succeeds (emitSample (planOf i info)) s fun _ s' => x.Agrees s' →
      x.state s' = (x.setting image inputs).fetch (x.state s)
        ((i.detail (x.state s).registers).request info.id (i.coord (x.state s).registers))
        (i.destination info.encoding) info.componentCount.toNat := by
  rw [i.destination_eq]
  unfold emitSample
  refine (succeeds_of_resting (loadCoord_succeeds hF hmul hi)).bind fun coord s₁ _ h₁ => ?_
  obtain ⟨r₁, hcoord⟩ := h₁
  refine (succeeds_of_resting (loadLod_succeeds hF hmul hi)).bind fun lod s₂ _ h₂ => ?_
  obtain ⟨r₂, d, hd, hdetail⟩ := h₂
  have r := (x.resting F).trans r₁ r₂
  obtain ⟨words, hwords, -, heq⟩ := hcoord.mono r₂.moves
  -- the level of detail was read after the coordinate, from the same registers
  have hgive : x.GivesDetail s₂ lod (i.detail (x.state s).registers) :=
    ⟨d, hd, fun ha => by rw [hdetail ha, r₁.same (r₂.moves.agrees ha)]⟩
  refine Succeeds.lift_bind ((fetchStore_moves hF hmul (i.destOperand info.encoding) hcount
    (.inr fun lane _ => inWords_destOperand info.encoding lane) (.inr rfl)
    (r.moves.leads.grows.table.definition ht)
    (Reckoning.normalizeCoord_value (R := x.reckoning hF) hwords) heq hgive image inputs).imp
    fun _ s₃ m₃ h₃ ha => ?_)
  rw [h₃ ha, r.same (m₃.agrees ha)]

end Samples

end Launch

end TextureLift

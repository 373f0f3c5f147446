import TextureLift.Proofs.Lowering.Variables
import TextureLift.Proofs.Machine.Requests
import TextureLift.Proofs.Shader.Accounting

/-!
# The lanes of coordinates

The coordinate of a sample is a vector of floats whose length depends on what asks for the sample and
not on the image. Instructions take two lanes, or three if they have three dimensions; queries take
all four lanes of an input of floats, two lanes of a packed component, or three if they divide:

    f.coordLanes?   the lanes of the coordinate of a fetch

Where the lanes are stated there are two at least, with one lane more where the last one divides; of
a query whose input component is one integer nothing is stated. For images of three dimensions they
are enough only if the fetch has three lanes without a divisor: an instruction of two dimensions
samples such an image at a coordinate that is too short.

The lengths are those of the requests of a run, and a run of a sound module says what the types of the
ids are.
-/

namespace TextureLift

open Builder Lowering SamplerTable

/-! ## Lanes of fetches -/

namespace QueryDesc

/-- The lanes of the coordinate of a query. Nothing is stated for a component that is one integer. -/
def coordLanes? (q : QueryDesc) : Option UInt32 :=
  if q.divisorLane.isSome then some 3
  else if q.coordEncoding = .f32 then some 4
  else if 1 < q.coordEncoding.lanesPerComponent then some 2
  else none

theorem length_coord {q : QueryDesc} {input : List UInt32} (hinput : input.length = 4) {n : UInt32}
    (hn : q.coordLanes? = some n) : (q.coord input).length = n.toNat := by
  unfold coordLanes? at hn
  unfold coord
  cases hlane : q.divisorLane with
  | some lane =>
    rw [hlane] at hn
    obtain rfl := Option.some.inj hn
    rfl
  | none =>
    rw [hlane, if_neg (by simp)] at hn
    dsimp only
    split at hn
    · rename_i hk
      obtain rfl := Option.some.inj hn
      rw [if_pos hk]
      exact hinput
    · rename_i hk
      rw [if_neg hk, List.length_map, List.length_range, Encoding.wordLanes_eq]
      split at hn
      · rename_i hlanes
        obtain rfl := Option.some.inj hn
        have hlt : 1 < q.coordEncoding.lanesPerComponent.toNat := UInt32.lt_iff_toNat_lt.1 hlanes
        show min 2 q.coordEncoding.lanesPerComponent.toNat = 2
        omega
      · cases hn

end QueryDesc

namespace Sample

/-- The lanes of the coordinate of an instruction. -/
def coordCount (i : Sample) : UInt32 :=
  if i.dimension = 2 then 3 else 2

theorem length_coord {i : Sample} (hi : i.rank ≤ 3) (r : Registers) :
    (i.coord r).length = i.coordCount.toNat := by
  have hread : (i.coordSource.read r Window.primary i.coordLanes).length = i.rank := by
    unfold Operand.read coordLanes
    rw [List.length_map, List.length_take]
    show min i.rank 3 = i.rank
    omega
  unfold coord coordCount
  dsimp only
  by_cases h1 : i.rank = 1
  · have hne : i.dimension ≠ 2 := fun h => by
      rw [i.rank_eq_three.2 h] at h1
      cases h1
    rw [if_pos h1, if_neg hne, List.length_append, hread, h1]
    rfl
  · rw [if_neg h1, hread]
    by_cases h3 : i.rank = 3
    · rw [if_pos (i.rank_eq_three.1 h3), h3]
      rfl
    · rw [if_neg fun h => h3 (i.rank_eq_three.2 h)]
      have hpos : 0 < i.rank := Nat.succ_pos _
      show i.rank = 2
      omega

end Sample

namespace Fetch

/-- The sampler that a fetch is made with. -/
def desc : Fetch → SamplerDesc
  | query _ d | sample _ d => d

/-- The lanes of the coordinate of a fetch. -/
def coordLanes? : Fetch → Option UInt32
  | query q _ => q.coordLanes?
  | sample i _ => some i.coordCount

theorem mem_fetches {p : Program} {slots : UInt32} {f : Fetch} (hf : f ∈ p.fetches slots) :
    p.sampler? f.sampler = some f.desc ∧ (∀ q d, f = query q d → q ∈ p.queries) ∧
      ∀ i d, f = sample i d → i.rank ≤ 3 := by
  unfold Program.fetches at hf
  rcases List.mem_append.1 hf with hf | hf
  · obtain ⟨q, hq, hfetch⟩ := List.mem_filterMap.1 hf
    obtain ⟨d, hd, rfl⟩ := Option.map_eq_some_iff.1 hfetch
    refine ⟨hd, fun q' d' heq => ?_, fun i d' heq => by cases heq⟩
    obtain ⟨rfl, -⟩ := Fetch.query.inj heq
    exact hq
  · obtain ⟨word, -, hfetch⟩ := List.mem_filterMap.1 hf
    obtain ⟨i, -, hfetch⟩ := Option.bind_eq_some_iff.1 hfetch
    unfold Program.fetchOfSample? at hfetch
    split at hfetch
    · rename_i heffect
      obtain ⟨d, hd, rfl⟩ := Option.map_eq_some_iff.1 hfetch
      refine ⟨hd, fun q d' heq => (by cases heq), fun i' d' heq => ?_⟩
      obtain ⟨rfl, -⟩ := Fetch.sample.inj heq
      unfold Sample.takesEffect at heffect
      simp only [Bool.and_eq_true, decide_eq_true_eq] at heffect
      exact heffect.1.1.1.1
    · cases hfetch

theorem length_coord {p : Program} {slots : UInt32} {f : Fetch} (hf : f ∈ p.fetches slots)
    {x : Setting} (hx : ∀ q ∈ p.queries, (x.input q.coordLocation).length = 4) (r : Registers)
    {n : UInt32} (hn : f.coordLanes? = some n) : (f.request x r).coord.length = n.toNat := by
  obtain ⟨-, hqueries, hranks⟩ := mem_fetches hf
  cases f with
  | query q d =>
    show (q.detail.request _ _).coord.length = _
    rw [Detail.coord_request]
    exact QueryDesc.length_coord (hx q (hqueries q d rfl)) hn
  | sample i d =>
    obtain rfl := Option.some.inj hn
    show ((i.detail r).request _ _).coord.length = _
    rw [Detail.coord_request]
    exact Sample.length_coord (hranks i d rfl) r

/-- There are enough lanes for two dimensions, and for a divisor. -/
theorem two_le_coordLanes {f : Fetch} {n : UInt32} (hn : f.coordLanes? = some n) :
    2 ≤ n ∧ (f.Takes .projective → n = 3) := by
  cases f with
  | query q d =>
    have hn : q.coordLanes? = some n := hn
    unfold QueryDesc.coordLanes? at hn
    by_cases hlane : q.divisorLane.isSome = true
    · rw [if_pos hlane] at hn
      obtain rfl := Option.some.inj hn
      exact ⟨by decide, fun _ => rfl⟩
    · rw [if_neg hlane] at hn
      refine ⟨?_, fun htakes => ?_⟩
      · split at hn
        · obtain rfl := Option.some.inj hn
          decide
        · split at hn
          · obtain rfl := Option.some.inj hn
            decide
          · cases hn
      · have htakes : .projective = q.lod := htakes
        unfold QueryDesc.lod at htakes
        rw [if_neg hlane] at htakes
        cases htakes
  | sample i d =>
    obtain rfl := Option.some.inj hn
    refine ⟨?_, fun htakes => htakes.elim⟩
    unfold Sample.coordCount
    split <;> decide

end Fetch

/-! ## Lanes of ids -/

/-- The instruction makes a fetch: it samples an image of the dimensions of the fetch's sampler, at a
vector of floats with the lanes of the fetch. -/
def Context.SamplesAt (c : Context) (f : Fetch) (i : Inst) : Prop :=
  ∃ info lod coord, c.samplers.get? f.sampler = some info ∧
    c.close.HoldsImage info.id (imageDim f.desc.dimension) ∧ f.Takes lod ∧
    i.Asks c.close.body.toList info.id lod ∧ i.operandRef? 1 = some coord ∧
    c.close.isFloat coord = true ∧
    ∀ n, f.coordLanes? = some n →
      c.close.components coord = n ∧ 2 ≤ n ∧ (lod = .projective → n = 3)

namespace Lowering

variable {settings : LiftSettings} {p : Program} {stats : Stats} {c : Context}

/-- Samplers are variables that hold images of their dimensions. -/
theorem shade_holdsImage {r : Except Failure Stats} (hp : p.defect? = none)
    (h : shade settings p = .ok (r, c)) {index : UInt32} {info : SamplerInfo} {d : SamplerDesc}
    (hinfo : c.samplers.get? index = some info) (hd : p.sampler? index = some d) :
    c.close.HoldsImage info.id (imageDim d.dimension) := by
  obtain ⟨c₀, hbegins, hshades⟩ := (Launch.shade_ends_blank hp h).shades
  rw [hshades.samplers] at hinfo
  have hentry := (hbegins.lists.entries index).symm.trans hinfo
  obtain ⟨d', hd', heq⟩ := Option.map_eq_some_iff.1 hentry
  obtain rfl := Option.some.inj (hd.symm.trans hd')
  have hdimension : info.dimension = d.dimension := by rw [← heq]
  have hholds := (hbegins.lists.images index info hinfo).mono hshades.moves.leads.grows.table
  rw [hdimension] at hholds
  exact hholds

/-- Samples take floats, as many as the fetch has. -/
theorem shade_coordinate (hp : p.defect? = none) (h : shade settings p = .ok (.ok stats, c))
    {n : Nat} {f : Fetch} {i : Inst} (hf : (p.fetches settings.registerSlots)[n]? = some f)
    (hi : (samplesOf c.close.body.toList)[n]? = some i) :
    ∃ coord, i.operandRef? 1 = some coord ∧ c.close.isFloat coord = true ∧
      ∀ count, f.coordLanes? = some count → c.close.components coord = count := by
  -- one run with full inputs gives the lengths
  obtain ⟨memory, hloads⟩ : ∃ memory, c.Loads memory (fun _ => 0) fun _ => [0, 0, 0, 0] :=
    (Launch.shade_ends_blank hp h).exists_loads fun _ => rfl
  let texels : Texels := fun _ _ => ⟨0, 0, 0, 0⟩
  obtain ⟨m, hrun, hsamples⟩ := run_of_typed hp h texels hloads.typed fun _ => 0
  let x : Launch := ⟨⟨texels, memory⟩, fun _ => 0, settings.registerSlots⟩
  have hends : x.Ends p (.ok stats) c := Launch.shade_ends rfl hp h
  obtain ⟨coord, call, count, hcoord, hcall, ⟨t, ht, hlanes⟩, hlen⟩ :=
    hends.sound_close.1.exists_coord hloads.typed hi
  refine ⟨coord, hcoord, ?_, fun count' hcount => ?_⟩
  · unfold isFloat
    rw [ht]
    exact hlanes.isFloatType
  · have hafter : x.after c.close = m := by
      unfold Environment.after
      exact congrArg Prod.fst hrun
    have hat := Fetch.getElem?_samples_of_fetch
      ⟨texels, c.samplers.image, c.inputsIn memory, settings.registerSlots⟩ hf
      (c.registersIn { memory } fun _ => 0)
    rw [← hsamples, Array.getElem?_toList, ← hafter, hcall] at hat
    have hinputs (q : QueryDesc) (hq : q ∈ p.queries) :
        (c.inputsIn memory q.coordLocation).length = 4 := by
      obtain ⟨id, hid⟩ := Option.isSome_iff_exists.1 ((Context.shade_arranged h).2 q hq)
      unfold Context.inputsIn
      rw [hid, Option.map_some, Option.getD_some, hloads.inputs _ id hid]
      rfl
    rw [Option.some.inj hat, Fetch.length_coord (List.mem_of_getElem? hf) hinputs _ hcount] at hlen
    unfold components
    rw [ht]
    exact hlanes.typeComponents.trans (UInt32.toNat_inj.1 hlen).symm

theorem shade_samplesAt (hp : p.defect? = none) (h : shade settings p = .ok (.ok stats, c)) :
    List.Forall₂ c.SamplesAt (p.fetches settings.registerSlots) (samplesOf c.close.body.toList) := by
  have hasked := shade_asked hp h
  refine List.forall₂_iff_get.2 ⟨hasked.length_eq, fun n hn hn' => ?_⟩
  obtain ⟨info, lod, hinfo, htakes, hasks⟩ := hasked.get hn hn'
  obtain ⟨coord, hcoord, hfloat, hlanes⟩ := shade_coordinate hp h (n := n)
    (List.getElem?_eq_getElem hn) (List.getElem?_eq_getElem hn')
  obtain ⟨hsampler, -, -⟩ := Fetch.mem_fetches (List.get_mem _ ⟨n, hn⟩)
  refine ⟨info, lod, coord, hinfo, shade_holdsImage hp h hinfo hsampler, htakes, hasks, hcoord, hfloat,
    fun count hcount => ?_⟩
  obtain ⟨htwo, hthree⟩ := Fetch.two_le_coordLanes hcount
  refine ⟨hlanes count hcount, htwo, fun hlod => hthree ?_⟩
  rw [← hlod]
  exact htakes

end Lowering

/-! ## Lanes in modules -/

/-- The samples of a module are the fetches of its program, each at floats, with the lanes of the fetch
where these are stated. The key must not take the program for one lifted before. -/
theorem lift_coordinates {κ : Type} [DecidableEq κ] {key : Program → κ} {l l' : Lifter κ} {p : Program}
    {m : LiftedModule} {earlier : List Program} (hl : l.Lifted key earlier)
    (hkey : l.settings.cacheModules = true → ∀ q ∈ earlier, key q = key p → q = p)
    (h : l.lift key p = .ok (.ok m, l')) :
    ∃ stats c, shade l.settings p = .ok (.ok stats, c) ∧ m.words = c.close.words ∧
      List.Forall₂ c.SamplesAt (p.fetches l.settings.registerSlots)
        (samplesOf c.close.body.toList) := by
  obtain ⟨stats, c, hdefect, hshade, rfl⟩ := hl.loweredFrom hkey h
  exact ⟨stats, c, hshade, c.words_finish, shade_samplesAt hdefect hshade⟩

/-- The projected query has three lanes, and the sample with gradients has two. -/
theorem lift_coordinates_gradientProgram : ∃ m l' i j, ∃ c : Context,
    ({} : Lifter Unit).Lifted (fun _ => ()) [] ∧
    Lifter.lift (fun _ => ()) {} gradientProgram = .ok (.ok m, l') ∧ m.words = c.close.words ∧
    samplesOf c.close.body.toList = [i, j] ∧
    (∃ coord, i.operandRef? 1 = some coord ∧ c.close.components coord = 3) ∧
    ∃ coord, j.operandRef? 1 = some coord ∧ c.close.components coord = 2 := by
  obtain ⟨c₀, hshade⟩ := exists_shade_gradientProgram
  have hlift : Lifter.lift (fun _ => ()) {} gradientProgram = .ok (.ok c₀.finish,
      Lifter.remember {} () c₀.finish) :=
    Lifter.lift_of_shade (by decide) (by rfl) hshade
  obtain ⟨stats, c, -, hwords, hsamples⟩ := lift_coordinates (.start {}) (fun _ q hq => nomatch hq) hlift
  obtain ⟨f, g, hfetches, hf, hg⟩ : ∃ f g, gradientProgram.fetches 64 = [f, g] ∧
      f.coordLanes? = some 3 ∧ g.coordLanes? = some 2 := ⟨_, _, rfl, by decide, by decide⟩
  rw [show ({} : LiftSettings).registerSlots = 64 from rfl, hfetches] at hsamples
  generalize hcode : samplesOf c.close.body.toList = code at hsamples
  obtain _ | ⟨hi, _ | ⟨hj, _ | _⟩⟩ := hsamples
  obtain ⟨_, _, coord, -, -, -, -, hcoord, -, hlanes⟩ := hi
  obtain ⟨_, _, coord', -, -, -, -, hcoord', -, hlanes'⟩ := hj
  exact ⟨_, _, _, _, c, .start {}, hlift, hwords, hcode, ⟨coord, hcoord, (hlanes 3 hf).1⟩,
    coord', hcoord', (hlanes' 2 hg).1⟩

/-- A sample of two dimensions, with a sampler of three. -/
def flatProgram : Program where
  samplers := [{ index := 0, componentCount := 4, encoding := .f32, dimension := 3 }]
  queries := []
  instructions := [Sample.encode { dimension := 1 }]

/-- An image of three dimensions is sampled at two lanes. -/
theorem lift_coordinate_flat : ∃ m l' i texture lod coord, ∃ c : Context,
    Lifter.lift id {} flatProgram = .ok (.ok m, l') ∧ m.words = c.close.words ∧
    samplesOf c.close.body.toList = [i] ∧ i.Asks c.close.body.toList texture lod ∧
    c.close.HoldsImage texture .three ∧ i.operandRef? 1 = some coord ∧
    c.close.components coord = 2 := by
  have hshades : (shade {} flatProgram).toOption.map (·.1) = some (.ok { emitted := 1 }) := by
    decide +kernel
  obtain ⟨⟨_, c⟩, hshade, rfl⟩ := exists_of_toOption_map hshades
  have hlift : Lifter.lift id {} flatProgram = .ok (.ok c.finish,
      Lifter.remember {} flatProgram c.finish) :=
    Lifter.lift_of_shade (by decide) (by rfl) hshade
  obtain ⟨f, hfetches, hdimension, hf⟩ : ∃ f, flatProgram.fetches 64 = [f] ∧
      f.desc.dimension = 3 ∧ f.coordLanes? = some 2 := ⟨_, rfl, by decide, by decide⟩
  have hsamples := shade_samplesAt (by decide) hshade
  rw [show ({} : LiftSettings).registerSlots = 64 from rfl, hfetches] at hsamples
  generalize hcode : samplesOf c.close.body.toList = code at hsamples
  obtain _ | ⟨hi, _ | _⟩ := hsamples
  obtain ⟨info, lod, coord, -, hholds, -, hasks, hcoord, -, hlanes⟩ := hi
  rw [hdimension] at hholds
  exact ⟨_, _, _, info.id, lod, coord, c, hlift, c.words_finish, hcode, hasks, hholds, hcoord,
    (hlanes 2 hf).1⟩

end TextureLift

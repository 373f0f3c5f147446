import TextureLift.Proofs.Lowering.Demand
import TextureLift.Proofs.Lowering.Passage
import TextureLift.Proofs.Lowering.Saturate
import TextureLift.Proofs.Number.Saturation

/-!
# Exact conversions

The code that converts floats to the integers of an encoding computes `Datum.saturated` in every lane,
for any number of lanes, from any state of the machine and in any larger module:

    saturateTo value k  appends code that gives its id the lanes  ws  with
      k.integer w = (decode x).saturated lo hi        for each lane x of the value

The float that is converted in the end is that integer already.
-/

namespace TextureLift

open Builder Build Discipline Lowering Number

/-- No constant of the module has been given another value. -/
def Machine.Unshadowed (m : Machine) (b : Builder) : Prop :=
  ∀ id t w, b.definition? id = some (.constant t w) → m.values[id.word]? = none

namespace Passage

/-- The passage that begins where a module ends so far. -/
def behind (b : Builder) (whole : Emitter) (texels : Texels) (m : Machine) : Passage :=
  ⟨whole, texels, m, b.body.size⟩

variable {b b' : Builder} {whole : Emitter} {texels : Texels} {m : Machine}

theorem after_behind : (behind b whole texels m).after b = m := by
  unfold after behind
  rw [List.drop_eq_nil_of_le (by simp)]
  rfl

theorem keeps_behind (hsize : b.definitions.size < UInt32.size) (hm : m.Unshadowed whole.builder) :
    (behind b whole texels m).Keeps b := by
  refine ⟨hsize, Nat.le_refl _, fun _ => ⟨?_, ?_⟩⟩
  · show (m.steps whole.builder texels (b.body.toList.drop b.body.size)).2 = none
    rw [List.drop_eq_nil_of_le (by simp)]
    rfl
  · rw [after_behind]
    exact hm

/-- The code that was added, run from the machine that the passage starts with. -/
theorem steps_behind (hk : (behind b whole texels m).Keeps b') {code : List Inst}
    (hbody : b'.body.toList = b.body.toList ++ code) (hle : TableLe b' whole.builder) :
    m.steps whole.builder texels code = ((behind b whole texels m).after b', none) := by
  have hdrop : b'.body.toList.drop b.body.size = code := by
    rw [hbody]
    exact List.drop_left' (by simp)
  have hdone := (hk.runs hle).done
  unfold after behind at *
  dsimp only at *
  rw [hdrop] at hdone ⊢
  exact Prod.ext rfl hdone

theorem holds_behind {id : Ref} {k : ScalarKind} {bits : List UInt32}
    (h : b.Carries id k bits.length) (hv : m.value? whole.builder id = some (.lanes k bits)) :
    (behind b whole texels m).Holds b id k bits := by
  refine ⟨h, fun _ => ?_⟩
  rw [after_behind]
  exact hv

/-- A passage in a module without definitions, for what does not depend on the run. -/
def blank (b : Builder) : Passage :=
  behind b ⟨{ definitions := #[] }, ⟨0, []⟩⟩ (fun _ _ => ⟨0, 0, 0, 0⟩) {}

theorem keeps_blank (hsize : b.definitions.size < UInt32.size) : (blank b).Keeps b :=
  keeps_behind hsize fun _ _ _ _ => Std.ExtTreeMap.getElem?_empty

theorem holds_blank {id : Ref} {k : ScalarKind} {bits : List UInt32}
    (h : b.Carries id k bits.length) : (blank b).Holds b id k bits := by
  refine ⟨h, fun hc => ?_⟩
  obtain ⟨d, hd⟩ := Option.isSome_iff_exists.1 h.defined
  have hnone : ({ definitions := #[] } : Builder).definition? id = some d := hc.definition hd
  unfold definition? at hnone
  simp at hnone

/-- Floats become integers, in any number of lanes. -/
theorem saturateTo_ensures {x : Passage} {F : Fault → Prop} (hF : F .idsExhausted) {value : Ref}
    {bits : List UInt32} {e : Encoding} (he : e.isInteger) (hv : x.Holds b value .f32 bits) :
    (x.quiet F).Ensures (saturateTo value e) b fun id b' =>
      x.Holds b' id (Environment.integerKind e.isSigned) (bits.map e.encodeNumber) :=
  Reckoning.saturateTo_ensures (R := x.reckoning hF) hv trivial he

end Passage

/-- Floats become the integers nearest to them that lie in the range of the encoding. The result fits
the encoding, what is converted last is an integer in range, and larger numbers become larger
integers. The code can be emitted unless ids run out, of which it takes at most 19. -/
theorem saturateTo_exact {k : Encoding} {lo hi : ℤ} (hk : k.range? = some (lo, hi)) {b : Builder}
    {value : Ref} {n : Nat} (hvalue : b.Carries value .f32 n)
    (hsize : b.definitions.size < UInt32.size) :
    (∀ f, saturateTo value k b = .error f →
      f = .idsExhausted ∧ UInt32.size ≤ b.definitions.size + 19) ∧
    (∀ id b', saturateTo value k b = .ok (id, b') → TableLe b b' ∧
      ∃ code, b'.body.toList = b.body.toList ++ code ∧
      ∀ (t : Builder) (texels : Texels) (m : Machine) (xs : List UInt32), TableLe b' t →
        m.Unshadowed t → m.value? t value = some (.lanes .f32 xs) → xs.length = n →
        ∃ m' ws, m.steps t texels code = (m', none) ∧ m'.memory = m.memory ∧ m'.samples = m.samples ∧
          m'.value? t id = some (.lanes (Environment.integerKind k.isSigned) ws) ∧
          (ws = xs.map fun x => if k.isSigned then Single.toSigned (Encoding.bounded lo hi x)
            else Single.toUnsigned (Encoding.bounded lo hi x)) ∧
          ws.map k.integer = xs.map fun x => (Single.decode x).saturated lo hi) ∧
    (∀ x, Single.Stands (Encoding.bounded lo hi x) ((Single.decode x).saturated lo hi : ℤ) ∧
      k.Fits ((Single.decode x).saturated lo hi)) ∧
    ∀ x y p q, (Single.decode x).position? = some p → (Single.decode y).position? = some q → p ≤ q →
      (Single.decode x).saturated lo hi ≤ (Single.decode y).saturated lo hi := by
  have hinteger : k.isInteger = true := by cases k <;> cases hk <;> rfl
  obtain ⟨-, -, hle, hfits⟩ := Encoding.range_exact hk
  refine ⟨fun f hf => ?_, fun id b' hrun => ?_, fun x => ⟨Encoding.stands_bounded hk x, ?_⟩,
    fun x y p q hp hq hpq => Datum.saturated_mono hle hp hq hpq⟩
  · have htakes := Build.Takes.saturateTo value hinteger b
    rw [hf] at htakes
    exact htakes
  · -- the code is the same for all machines, so it may be taken from a passage without a run
    have hblank : (Passage.blank b).Holds b value .f32 (List.replicate n 0) :=
      Passage.holds_blank (by rwa [List.length_replicate])
    obtain ⟨-, hgrow, -⟩ := (Passage.saturateTo_ensures (F := fun _ => True) trivial hinteger
      hblank).result (Passage.keeps_blank hsize) hrun
    obtain ⟨code, hcode⟩ := hgrow.body
    refine ⟨hgrow.table, code, hcode, fun t texels m xs htable hm hxs hlen => ?_⟩
    have hkeeps : (Passage.behind b ⟨t, ⟨0, []⟩⟩ texels m).Keeps b :=
      Passage.keeps_behind hsize hm
    have hholds : (Passage.behind b ⟨t, ⟨0, []⟩⟩ texels m).Holds b value .f32 xs :=
      Passage.holds_behind (hlen ▸ hvalue) hxs
    obtain ⟨hkeeps', hquiet, hresult⟩ :=
      (Passage.saturateTo_ensures (F := fun _ => True) trivial hinteger hholds).result hkeeps hrun
    refine ⟨_, _, Passage.steps_behind hkeeps' hcode htable, ?_, ?_, hresult.value htable, ?_, ?_⟩
    · rw [hquiet.memory htable, Passage.after_behind]
    · rw [hquiet.samples htable, Passage.after_behind]
    · exact List.map_congr_left fun x _ => Encoding.encodeNumber_eq hk x
    · rw [List.map_map]
      exact List.map_congr_left fun x _ => Encoding.integer_encodeNumber hk x
  · obtain ⟨hlow, hhigh⟩ := (Single.decode x).saturated_mem hle
    exact hfits _ hlow hhigh

/-- A module with one constant, two and a half. -/
def halfModule : Builder where
  definitions := #[.plain, .type (.float 32), .constant ⟨1⟩ (Single.nearest false 5 (-1))]

theorem saturateTo_exact_half :
    Encoding.s8.range? = some (-128, 127) ∧ halfModule.Carries ⟨2⟩ .f32 1 ∧
      halfModule.definitions.size < UInt32.size ∧
      ∃ id b' code m' ws, saturateTo ⟨2⟩ .s8 halfModule = .ok (id, b') ∧ b'.body.toList = code ∧
        ({} : Machine).steps b' (fun _ _ => ⟨0, 0, 0, 0⟩) code = (m', none) ∧
        m'.value? b' id = some (.lanes .i32 ws) ∧ ws.map Encoding.s8.integer = [3] := by
  have hvalue : halfModule.Carries ⟨2⟩ .f32 1 :=
    ⟨⟨1⟩, rfl, rfl, rfl, fun _ _ h => (by cases h), fun _ h => by cases h⟩
  have hsize : halfModule.definitions.size < UInt32.size := by decide
  refine ⟨rfl, hvalue, hsize, ?_⟩
  obtain ⟨hfail, hconvert, -⟩ := saturateTo_exact (k := .s8) rfl hvalue hsize
  obtain ⟨⟨id, b'⟩, hrun⟩ : ∃ r, saturateTo ⟨2⟩ .s8 halfModule = .ok r := by
    cases hrun : saturateTo ⟨2⟩ .s8 halfModule with
    | error f => exact absurd (hfail f hrun).2 (by decide)
    | ok r => exact ⟨r, rfl⟩
  obtain ⟨htable, code, hcode, h⟩ := hconvert id b' hrun
  have hxs : ({} : Machine).value? b' ⟨2⟩ = some (.lanes .f32 [Single.nearest false 5 (-1)]) :=
    Machine.value?_mono htable {} rfl
  obtain ⟨m', ws, hsteps, -, -, hws, -, hmap⟩ := h b' (fun _ _ => ⟨0, 0, 0, 0⟩) {} _ (TableLe.refl b')
    (fun _ _ _ _ => Std.ExtTreeMap.getElem?_empty) hxs rfl
  refine ⟨id, b', code, m', ws, hrun, hcode, hsteps, hws, ?_⟩
  have hdecode : Single.decode (Single.nearest false 5 (-1)) = .finite false 10485760 (-22) := by decide
  have hnearest : nearestAway 10485760 (-22) = 3 := by decide
  rw [hmap, List.map_singleton, hdecode]
  show [max (-128) (min 127 (roundHalfAway (exact false 10485760 (-22))))] = [3]
  rw [roundHalfAway_exact, hnearest]
  rfl

end TextureLift

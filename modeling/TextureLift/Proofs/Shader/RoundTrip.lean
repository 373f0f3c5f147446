import Mathlib.Data.List.Dedup
import Mathlib.Data.List.Perm.Subperm
import TextureLift.Proofs.Lowering.Stream
import TextureLift.Proofs.Shader.Lifter

/-!
# Modules are read back from their words

The words of a lifted module are five words of a header and the words of its instructions, and the
instructions are read back from these. All instructions but one are short. The entry point lists the
inputs, one for each location that a query names, so it fits as long as there are at most 65530 of
them:

    (locations of p).dedup.length ≤ 65530 → m.words = header ++ rest → readInsts rest = some insts
-/

namespace TextureLift

open Builder Lowering Environment

/-! ## Inputs -/

namespace Lowering

/-- Instructions declare no inputs. -/
theorem isSome_inputs_of_lowerWordsFrom {words : List UInt64} {position : Nat} {c c' : Context}
    {r : Except Failure Unit} (h : lowerWordsFrom position words c = .ok (r, c')) {location : UInt32}
    (hl : c'.inputs[location]?.isSome) : c.inputs[location]?.isSome := by
  induction words generalizing c position with
  | nil =>
    obtain ⟨-, rfl⟩ := Prod.mk.inj (Except.ok.inj h)
    exact hl
  | cons word words ih =>
    obtain ⟨⟨o, c₁⟩, hword, h⟩ := exists_of_bind (show ((lowerWord word).run c >>= _) = _ from h)
    have hc₁ : c₁.inputs[location]?.isSome := by
      cases o with
      | ok outcome => exact ih (c := c₁.counting (count c₁.stats (.ok outcome))) h
      | error f =>
        obtain ⟨emitter, samplers, inputs, main, abort, stats, listing⟩ := c₁
        cases abort with
        | true =>
          obtain ⟨-, rfl⟩ := Prod.mk.inj (Except.ok.inj h)
          exact hl
        | false =>
          exact ih (c := Context.counting ⟨emitter, samplers, inputs, main, false, stats, listing⟩
            (count stats (.error f))) h
    exact ((lowers_of_run hword).follows.inputs location hc₁).resolve_right id

/-- There is at most one input for each location that a query names. -/
theorem length_inputs_le {settings : LiftSettings} {p : Program} {r : Except Failure Stats}
    {c : Context} (h : shade settings p = .ok (r, c)) :
    c.inputs.values.length ≤ (p.queries.map QueryDesc.coordLocation).dedup.length := by
  obtain ⟨c₁, r', hprepare, hwords, -⟩ := exists_of_shade h
  obtain ⟨c₀, hprepared⟩ := prepared_of_prepare hprepare
  have hnodup : (c.inputs.toList.map Prod.fst).Nodup := by
    rw [Std.ExtTreeMap.map_fst_toList_eq_keys]
    exact Std.ExtTreeMap.nodup_keys
  have hsubset : c.inputs.toList.map Prod.fst ⊆ (p.queries.map QueryDesc.coordLocation).dedup := by
    intro location hmem
    obtain ⟨⟨key, id⟩, hentry, rfl⟩ := List.mem_map.1 hmem
    have hget : c.inputs[key]? = some id := Std.ExtTreeMap.mem_toList_iff_getElem?_eq_some.1 hentry
    have hsome := isSome_inputs_of_lowerWordsFrom hwords (Option.isSome_of_eq_some hget)
    obtain ⟨q, hq, hlocation⟩ := hprepared.inputs key hsome
    exact List.mem_dedup.2 (List.mem_map.2 ⟨q, hq, hlocation⟩)
  have hle := (hnodup.subperm hsubset).length_le
  rw [List.length_map] at hle
  rw [Launch.values_eq_map, List.length_map]
  exact hle

end Lowering

/-! ## The closed module -/

/-- All instructions of the closed module are formed. -/
theorem Launch.Ends.formed_close {x : Launch} {p : Program} {r : Except Failure Stats} {c : Context}
    (h : x.Ends p r c) (hlen : c.inputs.values.length ≤ 65530) : ∀ i ∈ c.close.insts, i.Formed := by
  refine formed_insts (fun e he => ?_) fun i hi => ?_
  · obtain ⟨c₀, hbegins, hshades⟩ := h.shades
    have hentries : c.builder.entryPoints = #[] :=
      hshades.moves.leads.grows.entries.trans hbegins.entries
    have he : e ∈ c.builder.entryPoints.push _ := he
    rw [hentries] at he
    obtain rfl : e = _ := by simpa using he
    exact EntryPoint.formed_inst rfl hlen
  · obtain ⟨opening, code, ⟨void, type, label, rfl⟩, hbody, hcode⟩ := h.body
    rw [c.body_close, hbody] at hi
    simp only [List.mem_append, List.mem_cons, List.not_mem_nil, or_false] at hi
    rcases hi with ((rfl | rfl) | hi) | (rfl | rfl)
    · exact Inst.formed_of_length rfl rfl (by simp)
    · exact Inst.formed_of_length rfl rfl (by simp)
    · exact (hcode i hi).2
    · exact Inst.formed_of_length rfl rfl (by simp)
    · exact Inst.formed_of_length rfl rfl (by simp)

/-- The words of a lifted module are a header and words that a reader splits into the instructions of
the module, section by section. The key must not take the program for one lifted before. -/
theorem lift_words_read {κ : Type} [DecidableEq κ] {key : Program → κ} {l l' : Lifter κ} {p : Program}
    {m : LiftedModule} {earlier : List Program} (hl : l.Lifted key earlier)
    (hkey : l.settings.cacheModules = true → ∀ q ∈ earlier, key q = key p → q = p)
    (hlocations : (p.queries.map QueryDesc.coordLocation).dedup.length ≤ 65530)
    (h : l.lift key p = .ok (.ok m, l')) :
    ∃ stats c rest, shade l.settings p = .ok (.ok stats, c) ∧
      m.words = [0x07230203, 0x00010000, 0x00080001, c.close.bound, 0] ++ rest ∧
      readInsts rest = some (
        c.close.capabilities.toList.map (fun n => { opcode := .capability, operands := [n] }) ++
        c.close.imports ++
        (if c.close.memoryModel then [{ opcode := .memoryModel, operands := [0, 1] }] else []) ++
        c.close.entryPoints.toList.map EntryPoint.inst ++
        c.close.executionModes.toList.map ExecutionMode.inst ++
        c.close.annotations ++ c.close.globals ++ c.close.body.toList) := by
  obtain ⟨stats, c, hdefect, hshade, rfl⟩ := hl.loweredFrom hkey h
  have hends := Launch.shade_ends_blank hdefect hshade
  exact ⟨stats, c, c.close.insts.flatMap Inst.words, hshade, c.words_finish,
    readInsts_flatMap (hends.formed_close (Nat.le_trans (length_inputs_le hshade) hlocations))⟩

/-- On a fresh lifter the key may take all programs for the same. -/
theorem lift_words_read_gradientProgram : ∃ m l' rest, ∃ c : Context,
    ({} : Lifter Unit).Lifted (fun _ => ()) [] ∧
    (gradientProgram.queries.map QueryDesc.coordLocation).dedup.length ≤ 65530 ∧
    Lifter.lift (fun _ => ()) {} gradientProgram = .ok (.ok m, l') ∧
    m.words = [0x07230203, 0x00010000, 0x00080001, c.close.bound, 0] ++ rest ∧
    readInsts rest = some c.close.insts := by
  obtain ⟨c, hc⟩ := exists_shade_gradientProgram
  have hlift : Lifter.lift (fun _ => ()) {} gradientProgram = .ok (.ok c.finish,
      Lifter.remember {} () c.finish) :=
    Lifter.lift_of_shade (by decide) (by rfl) hc
  have hlocations : (gradientProgram.queries.map QueryDesc.coordLocation).dedup.length ≤ 65530 := by
    decide
  obtain ⟨stats, c', rest, -, hwords, hread⟩ :=
    lift_words_read (.start {}) (fun _ q hq => nomatch hq) hlocations hlift
  exact ⟨_, _, rest, c', .start {}, hlocations, hlift, hwords, hread⟩

end TextureLift

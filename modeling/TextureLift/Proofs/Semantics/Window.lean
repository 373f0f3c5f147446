import TextureLift.Proofs.Machine.Step
import TextureLift.Proofs.Semantics.Program

/-!
# Windows in the meaning of programs

A program is a list of fetches: the queries of declared samplers and the samples that take effect.
Each fetch makes one request and writes the primary window. All that is read of the alternate window
is the second gradient of samples with three dimensions:

    Program.exec_eq          a program executes its fetches
    Fetch.foldl_alternate    fetches leave the alternate window alone
    Fetch.dy_request         the second gradient of three dimensions is in the alternate window
-/

namespace TextureLift

open Number

/-! ## Fetches -/

/-- A request that a program makes, with the sampler that it names. -/
inductive Fetch where
  | query (q : QueryDesc) (d : SamplerDesc)
  | sample (i : Sample) (d : SamplerDesc)
  deriving DecidableEq, Repr

namespace Fetch

/-- What is asked for, given the registers before the fetch. -/
def request (x : Setting) (r : Registers) : Fetch → SampleCall
  | query q _ => q.detail.request (x.image q.sampler) (q.coord (x.input q.coordLocation))
  | sample i _ => (i.detail r).request (x.image i.samplerNumber) (i.coord r)

/-- The registers that receive the texel, and how many lanes of it. -/
def dest : Fetch → Operand × Nat
  | query q d => (q.dest d.encoding, d.componentCount.toNat)
  | sample i d => (i.destination d.encoding, d.componentCount.toNat)

def exec (x : Setting) (s : ShaderState) (f : Fetch) : ShaderState :=
  x.fetch s (f.request x s.registers) f.dest.1 f.dest.2

/-- Whether the fetch takes the gradients of three dimensions. -/
def isSpatial : Fetch → Bool
  | query _ _ => false
  | sample i _ => i.dimension = 2 && i.lodMode.toNat % 4 = 3

end Fetch

namespace Program

/-- The fetch of a query, if its sampler is declared. -/
def fetchOfQuery? (p : Program) (q : QueryDesc) : Option Fetch :=
  (p.sampler? q.sampler).map (.query q)

/-- The fetch of a sample, if its sampler is declared and it takes effect. -/
def fetchOfSample? (p : Program) (slots : UInt32) (i : Sample) : Option Fetch :=
  if i.takesEffect slots then (p.sampler? i.samplerNumber).map (.sample i) else none

/-- The fetch of an instruction word. -/
def fetchOfWord? (p : Program) (slots : UInt32) (word : UInt64) : Option Fetch :=
  (Sample.decode? word).bind (p.fetchOfSample? slots)

/-- The fetches of a program in the order of their requests. -/
def fetches (p : Program) (slots : UInt32) : List Fetch :=
  p.queries.filterMap p.fetchOfQuery? ++ p.instructions.filterMap (p.fetchOfWord? slots)

variable (p : Program) (x : Setting)

theorem exec_query (q : QueryDesc) (s : ShaderState) :
    q.exec x p s = ((p.fetchOfQuery? q).toList).foldl (Fetch.exec x) s := by
  unfold QueryDesc.exec fetchOfQuery?
  cases p.sampler? q.sampler with
  | none => rfl
  | some d => rfl

theorem exec_sample (i : Sample) (s : ShaderState) :
    i.exec x p s = ((p.fetchOfSample? x.slots i).toList).foldl (Fetch.exec x) s := by
  unfold Sample.exec fetchOfSample?
  cases p.sampler? i.samplerNumber with
  | none => cases i.takesEffect x.slots <;> rfl
  | some d => cases i.takesEffect x.slots <;> rfl

theorem execWord_eq (word : UInt64) (s : ShaderState) :
    execWord x p s word = ((p.fetchOfWord? x.slots word).toList).foldl (Fetch.exec x) s := by
  unfold execWord fetchOfWord?
  cases Sample.decode? word with
  | none => rfl
  | some i => exact p.exec_sample x i s

theorem foldl_filterMap_toList {α β σ : Type} (f : α → Option β) (g : σ → β → σ) (step : σ → α → σ)
    (hstep : ∀ s a, step s a = (f a).toList.foldl g s) (as : List α) (s : σ) :
    as.foldl step s = (as.filterMap f).foldl g s := by
  induction as generalizing s with
  | nil => rfl
  | cons a as ih =>
    rw [List.foldl_cons, ih, hstep]
    cases h : f a with
    | none => rw [List.filterMap_cons_none h]; rfl
    | some b => rw [List.filterMap_cons_some h]; rfl

/-- A program executes its fetches. -/
theorem exec_eq (r : Registers) :
    p.exec x r = (p.fetches x.slots).foldl (Fetch.exec x) { registers := r } := by
  unfold exec fetches
  rw [List.foldl_append,
    foldl_filterMap_toList p.fetchOfQuery? (Fetch.exec x) _ fun s q => p.exec_query x q s,
    foldl_filterMap_toList (p.fetchOfWord? x.slots) (Fetch.exec x) _
      fun s word => p.execWord_eq x word s]

end Program

/-! ## One window -/

/-- The registers agree on one window. -/
def Registers.AgreeOn (w : UInt8) (r r' : Registers) : Prop :=
  ∀ place : Place, place.window = w → r place = r' place

namespace Operand

variable (op : Operand)

theorem writeLane_of_ne (slots : UInt32) (r : Registers) (element x : UInt32) {place : Place}
    (hw : place.window ≠ Window.primary) : op.writeLane slots r element x place = r place := by
  unfold writeLane
  split
  · refine if_neg ?_
    rintro rfl
    exact hw rfl
  · rfl

/-- A write reaches the primary window alone. -/
theorem write_of_ne (slots : UInt32) (r : Registers) (count : Nat) (xs : List UInt32) {place : Place}
    (hw : place.window ≠ Window.primary) : op.write slots r count xs place = r place := by
  unfold write
  induction List.range count generalizing r with
  | nil => rfl
  | cons n ns ih => rw [List.foldl_cons, ih, op.writeLane_of_ne slots r _ _ hw]

/-- The first elements of an operand in a window. An immediate has its index in all of them. -/
def elements (r : Registers) (w : UInt8) (count : Nat) : List UInt32 :=
  (List.range count).map fun n =>
    if op.bank = .immediate then Single.ofUnsigned op.index
    else op.encoding.decodeLane (r ⟨op.bank, w, op.componentAt (.ofNat n)⟩)
      (.ofNat n % op.encoding.wordLanes)

theorem elements_congr {r r' : Registers} {w : UInt8} (h : r.AgreeOn w r') (count : Nat) :
    op.elements r w count = op.elements r' w count := by
  refine List.map_congr_left fun n _ => ?_
  simp only [h ⟨op.bank, w, op.componentAt (.ofNat n)⟩ rfl]

end Operand

/-! ## Requests -/

namespace Sample

variable (i : Sample)

theorem rank_eq_three : i.rank = 3 ↔ i.dimension = 2 := by
  unfold rank
  rw [← UInt8.toNat_inj]
  show _ ↔ i.dimension.toNat = 2
  omega

theorem detail_spatial (r : Registers) (hr : i.rank = 3) (hm : i.lodMode.toNat % 4 = 3) :
    i.detail r = .gradient (i.lodSource.read r Window.primary [0, 1, 2])
      (i.lodSource.elements r Window.alternate 3) := by
  unfold detail
  rw [if_neg (by omega), if_pos hm, if_pos hr]
  rfl

end Sample

namespace Fetch

variable {x : Setting} {r : Registers}

theorem request_sample (i : Sample) (d : SamplerDesc) : (sample i d).request x r =
    (i.detail r).request (x.image i.samplerNumber) (i.coord r) :=
  rfl

theorem isSpatial_sample {i : Sample} {d : SamplerDesc} : (sample i d).isSpatial = true ↔
    i.rank = 3 ∧ i.lodMode.toNat % 4 = 3 := by
  rw [i.rank_eq_three]
  simp [isSpatial]

/-- The second gradient of three dimensions is read from the alternate window. -/
theorem dy_request {i : Sample} {d : SamplerDesc} (hf : (sample i d).isSpatial = true) :
    ((sample i d).request x r).dy? = some (i.lodSource.elements r Window.alternate 3) := by
  obtain ⟨hr, hm⟩ := isSpatial_sample.1 hf
  rw [request_sample, i.detail_spatial r hr hm]
  rfl

/-! ## Runs -/

variable (fs : List Fetch) (s : ShaderState)

@[simp] theorem samples_exec (x : Setting) (f : Fetch) :
    (exec x s f).samples = s.samples ++ [f.request x s.registers] :=
  rfl

/-- Each fetch makes one request. -/
theorem length_samples_foldl (x : Setting) :
    (fs.foldl (exec x) s).samples.length = s.samples.length + fs.length := by
  induction fs generalizing s with
  | nil => rfl
  | cons f fs ih =>
    rw [List.foldl_cons, ih, samples_exec, List.length_append, List.length_cons, List.length_cons,
      List.length_nil]
    omega

/-- Later fetches leave the requests of earlier ones as they are. -/
theorem getElem?_samples_foldl (x : Setting) {n : Nat} (hn : n < s.samples.length) :
    (fs.foldl (exec x) s).samples[n]? = s.samples[n]? := by
  induction fs generalizing s with
  | nil => rfl
  | cons f fs ih =>
    have hlt : n < (exec x s f).samples.length := by
      rw [samples_exec, List.length_append]
      omega
    rw [List.foldl_cons, ih _ hlt, samples_exec, List.getElem?_append_left hn]

/-- The request at a position is that of the fetch there, in the registers that the fetches before it
leave. -/
theorem samples_foldl_at (x : Setting) (before after : List Fetch) (f : Fetch) (r : Registers) :
    ((before ++ f :: after).foldl (exec x) { registers := r }).samples[before.length]? =
      some (f.request x (before.foldl (exec x) { registers := r }).registers) := by
  have hlen := length_samples_foldl before { registers := r } x
  rw [List.foldl_append, List.foldl_cons, getElem?_samples_foldl, samples_exec]
  · rw [List.getElem?_append_right (by rw [hlen]; simp), hlen]
    simp
  · rw [samples_exec, List.length_append, hlen]
    simp

theorem getElem?_samples_of_fetch (x : Setting) {fs : List Fetch} {n : Nat} {f : Fetch}
    (hf : fs[n]? = some f) (r : Registers) :
    (fs.foldl (exec x) { registers := r }).samples[n]? =
      some (f.request x ((fs.take n).foldl (exec x) { registers := r }).registers) := by
  obtain ⟨hn, hfn⟩ := List.getElem?_eq_some_iff.1 hf
  have hsplit := List.take_append_drop n fs
  rw [List.drop_eq_getElem_cons hn, hfn] at hsplit
  have hat := samples_foldl_at x (fs.take n) (fs.drop (n + 1)) f r
  rwa [hsplit, List.length_take_of_le (Nat.le_of_lt hn)] at hat

/-- Fetches leave the alternate window alone. -/
theorem foldl_alternate (x : Setting) :
    (fs.foldl (exec x) s).registers.AgreeOn Window.alternate s.registers := by
  intro place hw
  induction fs generalizing s with
  | nil => rfl
  | cons f fs ih =>
    rw [List.foldl_cons, ih]
    exact f.dest.1.write_of_ne x.slots s.registers _ _ (by rw [hw]; decide)

end Fetch

end TextureLift

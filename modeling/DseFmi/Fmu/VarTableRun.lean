import DseFmi.Fmu.Period
import DseFmi.Fmu.VarTable

/-!
# Steps over the variable table

Between two steps the values of the registered variables are kept by the signal vectors,
in a step they are kept by the table. A run of the accessors and of steps is followed from
the registration of the table on.
-/

namespace DseFmi.Fmu

open DseFmi.Library

/-- A step function that works on the variable table. It keeps the index of the scalars
and their storage, and it does not know of the marshal list. -/
structure TableStep extends FmuStep where
  scalars : ∀ fmu t h, SameScalarMaps fmu (run fmu t h).1
  storage : ∀ fmu t h p, fmu.getScalar p ≠ none → (run fmu t h).1.getScalar p ≠ none
  marshalList : ∀ fmu items t h, run { fmu with marshalList := items } t h =
    ({ (run fmu t h).1 with marshalList := items }, (run fmu t h).2)

inductive RealCall where
  | setReal (request : Request)
  | getReal (request : Request)
  | doStep (step : TableStep) (currentCommunicationPoint communicationStepSize : Double)

def RealCall.run (fmu : FmuInstanceData) : RealCall → FmuInstanceData
  | .setReal request => fmi2SetReal fmu request
  | .getReal request => (fmi2GetReal fmu request).1
  | .doStep step t h => (fmi2DoStep step.toFmuStep fmu t h).1

def runReals (fmu : FmuInstanceData) (calls : List RealCall) : FmuInstanceData :=
  calls.foldl RealCall.run fmu

/-- The instance as a step function leaves it. -/
def stepped (step : TableStep) (fmu : FmuInstanceData) (t h : Double) : FmuInstanceData :=
  (step.run (offered fmu) t h).1

def NoStep (calls : List RealCall) : Prop := ∀ step t h, .doStep step t h ∉ calls

/-- What a call sets through references that lead to the signal. -/
def valuesSet (fmu : FmuInstanceData) (p : FmuSignalVectorIndex) : RealCall → List Double
  | .setReal request => request.filterMap fun entry =>
      if fmu.scalarInput.lookup (vrIdx entry.1) = some p then some entry.2 else none
  | .getReal _ => []
  | .doStep _ _ _ => []

def lastSet (fmu : FmuInstanceData) (p : FmuSignalVectorIndex) (calls : List RealCall)
    (old : Double) : Double :=
  (calls.flatMap (valuesSet fmu p)).getLast?.getD old

/-- The value in the place of a registered variable. -/
def Registration.slot (table : TablePointer) (r : Registration) (fmu : FmuInstanceData) : Double :=
  fmu.table.load64 (table.address + r.offset)

theorem setScalar_comm (fmu : FmuInstanceData) {p q : FmuSignalVectorIndex} (different : p ≠ q)
    (x y : Double) : (fmu.setScalar p x).setScalar q y = (fmu.setScalar q y).setScalar p x := by
  have data : (fmu.data.modify p.sv fun sv => sv.setScalar p.vi x).modify q.sv
      (fun sv => sv.setScalar q.vi y) =
      (fmu.data.modify q.sv fun sv => sv.setScalar q.vi y).modify p.sv
        (fun sv => sv.setScalar p.vi x) := by
    apply List.ext_getElem?
    intro i
    by_cases same : p.sv = q.sv
    · have other : p.vi ≠ q.vi := fun also =>
        different (by cases p; cases q; simp_all)
      cases vector : fmu.data[i]? with
      | none => simp [List.getElem?_modify, vector]
      | some sv =>
          by_cases here : q.sv = i
          · cases storage : sv.scalar <;>
              simp [same, here, vector, storage, FmuSignalVector.setScalar,
                List.set_comm _ _ other]
          · simp [same, here, vector]
    · by_cases first : p.sv = i
      · have second : q.sv ≠ i := fun also => same (first.trans also.symm)
        simp [first, second]
      · simp [List.getElem?_modify, first]
  simp only [FmuInstanceData.setScalar, data]

theorem getScalar_reset (fmu : FmuInstanceData) (p : FmuSignalVectorIndex) :
    (fmuDefaultSignalsReset fmu).getScalar p = fmu.getScalar p := by
  unfold fmuDefaultSignalsReset
  split
  · simp only [FmuInstanceData.getScalar, List.getElem?_map]
    cases fmu.data[p.sv]? <;> rfl
  · rfl

theorem foldl_marshalToTable_eq (items : List FmuVarTableMarshalItem) (fmu : FmuInstanceData) :
    items.foldl marshalToTable fmu =
      { fmu with
        table := fmu.table.storeAll
          (items.map fun mi => (mi.variableOffset, (fmu.getScalar mi.signal).getD 0)) } := by
  induction items generalizing fmu with
  | nil => rfl
  | cons mi items ih =>
      rw [List.foldl_cons, ih]
      rfl

theorem marshalFromTable_comm (fmu : FmuInstanceData) {mi mj : FmuVarTableMarshalItem}
    (different : mi.signal ≠ mj.signal) :
    marshalFromTable (marshalFromTable fmu mi) mj =
      marshalFromTable (marshalFromTable fmu mj) mi :=
  setScalar_comm fmu different _ _

structure FromTable (items : List FmuVarTableMarshalItem) (fmu gmu : FmuInstanceData) : Prop where
  maps : SameScalarMaps fmu gmu
  table : gmu.table = fmu.table
  marshalList : gmu.marshalList = fmu.marshalList
  storage : ∀ p, fmu.getScalar p ≠ none → gmu.getScalar p ≠ none
  entry : ∀ mi ∈ items, fmu.getScalar mi.signal ≠ none →
    gmu.getScalar mi.signal = some (fmu.table.load64 mi.variableOffset)
  other : ∀ p, p ∉ items.map FmuVarTableMarshalItem.signal → gmu.getScalar p = fmu.getScalar p

theorem getScalar_setScalar_ne_none {fmu : FmuInstanceData} {p q : FmuSignalVectorIndex}
    (x : Double) (valid : fmu.getScalar q ≠ none) : (fmu.setScalar p x).getScalar q ≠ none := by
  by_cases same : p = q
  · subst same
    rw [getScalar_setScalar_self valid]
    exact Option.some_ne_none x
  · rw [getScalar_setScalar_ne same]
    exact valid

theorem foldl_marshalFromTable (items : List FmuVarTableMarshalItem) (fmu : FmuInstanceData)
    (distinct : (items.map FmuVarTableMarshalItem.signal).Nodup) :
    FromTable items fmu (items.foldl marshalFromTable fmu) := by
  induction items generalizing fmu with
  | nil =>
      refine ⟨⟨rfl, rfl, rfl⟩, rfl, rfl, fun _ => id, ?_, fun _ _ => rfl⟩
      intro mi member
      cases member
  | cons mi items ih =>
      have ⟨fresh, distinct⟩ := List.nodup_cons.mp distinct
      have rest := ih (marshalFromTable fmu mi) distinct
      have kept : ∀ p, fmu.getScalar p ≠ none → (marshalFromTable fmu mi).getScalar p ≠ none :=
        fun p => getScalar_setScalar_ne_none _
      refine ⟨(setScalar_same fmu _ _).trans rest.maps, rest.table, rest.marshalList,
        fun p valid => rest.storage p (kept p valid), ?_, ?_⟩
      · intro mj member valid
        rcases List.mem_cons.mp member with rfl | member
        · rw [List.foldl_cons, rest.other _ fresh]
          exact getScalar_setScalar_self valid _
        · exact rest.entry mj member (kept _ valid)
      · intro p absent
        simp only [List.map_cons, List.mem_cons, not_or] at absent
        rw [List.foldl_cons, rest.other p absent.2]
        exact getScalar_setScalar_ne (Ne.symm absent.1) _

structure Running (fmu : FmuInstanceData) (items : List FmuVarTableMarshalItem)
    (state : FmuInstanceData) : Prop extends StateOf fmu state where
  marshalList : state.marshalList = items

section Run

variable {fmu state : FmuInstanceData} {items : List FmuVarTableMarshalItem}
  {p : FmuSignalVectorIndex}

theorem setIndexed_running (running : Running fmu items state) (vr : UInt32) (x : Double) :
    Running fmu items (setIndexed state vr x) := by
  unfold setIndexed
  split
  · exact running
  · exact ⟨⟨running.maps.trans (setScalar_same _ _ _),
      fun q valid => getScalar_setScalar_ne_none x (running.storage q valid)⟩, running.marshalList⟩

theorem getScalar_setIndexed (running : Running fmu items state) (valid : fmu.getScalar p ≠ none)
    (vr : UInt32) (x : Double) : (setIndexed state vr x).getScalar p =
      if fmu.scalarInput.lookup (vrIdx vr) = some p then some x else state.getScalar p := by
  unfold setIndexed
  rw [running.maps.input]
  cases found : fmu.scalarInput.lookup (vrIdx vr) with
  | none => simp
  | some q =>
      by_cases same : q = p
      · subst same
        simp [getScalar_setScalar_self (running.storage q valid)]
      · simp [same, getScalar_setScalar_ne same]

theorem fmi2SetReal_eq (hashed : state.directIndex = none) (request : Request) :
    fmi2SetReal state request =
      request.foldl (fun state entry => setIndexed state entry.1 entry.2) state := by
  unfold fmi2SetReal setReals
  induction request generalizing state with
  | nil => rfl
  | cons entry request ih =>
      have here : setReal fmi2Errors state entry.1 entry.2 = setIndexed state entry.1 entry.2 := by
        rw [setReal, hashed]
      have still : (setIndexed state entry.1 entry.2).directIndex = none := by
        unfold setIndexed
        split <;> exact hashed
      rw [List.foldl_cons, List.foldl_cons, here, ih still]

theorem fmi2SetReal_running (hashed : fmu.directIndex = none) (running : Running fmu items state)
    (request : Request) : Running fmu items (fmi2SetReal state request) := by
  rw [fmi2SetReal_eq (running.maps.directIndex.trans hashed)]
  induction request generalizing state with
  | nil => exact running
  | cons entry request ih => exact ih (setIndexed_running running entry.1 entry.2)

theorem getScalar_fmi2SetReal (hashed : fmu.directIndex = none)
    (running : Running fmu items state) (valid : fmu.getScalar p ≠ none) {old : Double}
    (before : state.getScalar p = some old) (request : Request) :
    (fmi2SetReal state request).getScalar p =
      some ((valuesSet fmu p (.setReal request)).getLast?.getD old) := by
  rw [fmi2SetReal_eq (running.maps.directIndex.trans hashed), valuesSet]
  induction request generalizing state old with
  | nil => exact before
  | cons entry request ih =>
      have running := setIndexed_running running entry.1 entry.2
      have here := getScalar_setIndexed ‹Running fmu items state› valid entry.1 entry.2
      rw [List.foldl_cons, List.filterMap_cons]
      by_cases leads : fmu.scalarInput.lookup (vrIdx entry.1) = some p
      · rw [if_pos leads] at here
        simp only [if_pos leads, List.getLast?_cons, Option.getD_some]
        exact ih running here
      · rw [if_neg leads] at here
        simp only [if_neg leads]
        exact ih running (here.trans before)

/-- Without a direct index the getter changes nothing. -/
theorem getReals_indexed (hashed : state.directIndex = none) (request : Request) :
    fmi2GetReal state request =
      (state, request.map fun entry =>
        ((state.scalarPointer (vrIdx entry.1)).bind state.getScalar).getD entry.2) := by
  unfold fmi2GetReal
  induction request with
  | nil => rfl
  | cons entry request ih =>
      have here : getReal fmi2Errors state entry.1 entry.2 =
          (state, ((state.scalarPointer (vrIdx entry.1)).bind state.getScalar).getD entry.2) := by
        simp only [getReal, hashed, getIndexed]
        cases state.scalarPointer (vrIdx entry.1) <;> rfl
      simp only [getReals, here, ih, List.map_cons]

theorem offered_eq (state : FmuInstanceData) :
    offered state =
      { fmuDefaultSignalsReset state with
        table := state.table.storeAll (state.marshalList.map fun mi =>
          (mi.variableOffset, (state.getScalar mi.signal).getD 0)) } := by
  have same : (fmuDefaultSignalsReset state).marshalList = state.marshalList ∧
      (fmuDefaultSignalsReset state).table = state.table := by
    unfold fmuDefaultSignalsReset
    split
    · exact ⟨rfl, rfl⟩
    · exact ⟨rfl, rfl⟩
  unfold offered
  dsimp only
  rw [foldl_marshalToTable_eq]
  simp only [getScalar_reset, same.1, same.2]

theorem getScalar_offered (state : FmuInstanceData) (p : FmuSignalVectorIndex) :
    (offered state).getScalar p = state.getScalar p := by
  rw [offered_eq]
  exact getScalar_reset state p

theorem offered_running (running : Running fmu items state) :
    Running fmu items (offered state) := by
  have same : SameScalarMaps state (offered state) ∧
      (offered state).marshalList = state.marshalList := by
    rw [offered_eq]
    unfold fmuDefaultSignalsReset
    split
    · exact ⟨⟨rfl, rfl, rfl⟩, rfl⟩
    · exact ⟨⟨rfl, rfl, rfl⟩, rfl⟩
  refine ⟨⟨running.maps.trans same.1, fun p valid => ?_⟩, same.2.trans running.marshalList⟩
  rw [getScalar_offered]
  exact running.storage p valid

/-- The step function keeps the marshal list, since it does not know of it. -/
theorem TableStep.marshalList_run (step : TableStep) (fmu : FmuInstanceData) (t h : Double) :
    (step.run fmu t h).1.marshalList = fmu.marshalList := by
  have frame := step.marshalList fmu fmu.marshalList t h
  have same : (step.run fmu t h).1 = { (step.run fmu t h).1 with marshalList := fmu.marshalList } :=
    congrArg Prod.fst frame
  rw [same]

theorem stepped_running (step : TableStep) (running : Running fmu items state) (t h : Double) :
    Running fmu items (stepped step state t h) := by
  have before := offered_running running
  exact ⟨⟨before.maps.trans (step.scalars _ t h),
    fun p valid => step.storage _ t h p (before.storage p valid)⟩,
    (step.marshalList_run _ t h).trans before.marshalList⟩

section Distinct

variable (distinct : (items.map FmuVarTableMarshalItem.signal).Nodup)

include distinct in
/-- After the step function, the registered variables are copied from the table. -/
theorem fmi2DoStep_fromTable (step : TableStep) (running : Running fmu items state)
    (t h : Double) :
    FromTable items (stepped step state t h) (fmi2DoStep step.toFmuStep state t h).1 := by
  have listed := (stepped_running step running t h).marshalList
  have copied := foldl_marshalFromTable items (stepped step state t h) distinct
  have result : (fmi2DoStep step.toFmuStep state t h).1 =
      { items.foldl marshalFromTable (stepped step state t h) with signalsReset := false } := by
    rw [← listed]
    rfl
  rw [result]
  exact ⟨⟨copied.maps.output, copied.maps.input, copied.maps.directIndex⟩, copied.table,
    copied.marshalList, copied.storage, copied.entry, copied.other⟩

include distinct in
theorem fmi2DoStep_running (step : TableStep) (running : Running fmu items state) (t h : Double) :
    Running fmu items (fmi2DoStep step.toFmuStep state t h).1 := by
  have left := stepped_running step running t h
  have copied := fmi2DoStep_fromTable distinct step running t h
  exact ⟨⟨left.maps.trans copied.maps, fun p valid => copied.storage p (left.storage p valid)⟩,
    copied.marshalList.trans left.marshalList⟩

include distinct in
theorem RealCall.run_running (hashed : fmu.directIndex = none) (running : Running fmu items state)
    (call : RealCall) : Running fmu items (call.run state) := by
  cases call with
  | setReal request => exact fmi2SetReal_running hashed running request
  | getReal request =>
      rw [RealCall.run, getReals_indexed (running.maps.directIndex.trans hashed)]
      exact running
  | doStep step t h => exact fmi2DoStep_running distinct step running t h

include distinct in
theorem runReals_running (hashed : fmu.directIndex = none) (running : Running fmu items state)
    (calls : List RealCall) : Running fmu items (runReals state calls) := by
  induction calls generalizing state with
  | nil => exact running
  | cons call calls ih => exact ih (call.run_running distinct hashed running)

end Distinct

theorem runReals_append (state : FmuInstanceData) (calls more : List RealCall) :
    runReals state (calls ++ more) = runReals (runReals state calls) more :=
  List.foldl_append

theorem runReals_append_doStep (state : FmuInstanceData) (before : List RealCall)
    (step : TableStep) (t h : Double) :
    runReals state (before ++ [.doStep step t h]) =
      (fmi2DoStep step.toFmuStep (runReals state before) t h).1 :=
  runReals_append state before [.doStep step t h]

/-- Between steps a signal holds what was set last. -/
theorem getScalar_runReals (hashed : fmu.directIndex = none) (running : Running fmu items state)
    (valid : fmu.getScalar p ≠ none) {sets : List RealCall} (no_step : NoStep sets) {old : Double}
    (before : state.getScalar p = some old) :
    (runReals state sets).getScalar p = some (lastSet fmu p sets old) := by
  induction sets generalizing state old with
  | nil => exact before
  | cons call sets ih =>
      have later : NoStep sets := fun step t h member =>
        no_step step t h (List.mem_cons_of_mem _ member)
      have here : lastSet fmu p (call :: sets) old =
          lastSet fmu p sets (lastSet fmu p [call] old) := by
        simp [lastSet, List.getLast?_append, Option.getD_or]
      rw [here]
      cases call with
      | setReal request =>
          refine ih (fmi2SetReal_running hashed running request) later ?_
          rw [getScalar_fmi2SetReal hashed running valid before]
          simp [lastSet]
      | getReal request =>
          have unchanged : RealCall.run state (.getReal request) = state := by
            rw [RealCall.run, getReals_indexed (running.maps.directIndex.trans hashed)]
          refine ih (unchanged.symm ▸ running) later ?_
          rw [unchanged, before]
          rfl
      | doStep step t h => exact absurd List.mem_cons_self (no_step step t h)

/-- The table as it is offered holds the values of the registered variables. -/
theorem load64_offered (state : FmuInstanceData)
    (apart : state.marshalList.Pairwise fun mi mj =>
      Disjoint8 mi.variableOffset mj.variableOffset)
    {mi : FmuVarTableMarshalItem} (member : mi ∈ state.marshalList) :
    (offered state).table.load64 mi.variableOffset = (state.getScalar mi.signal).getD 0 := by
  rw [offered_eq]
  refine Memory.load64_storeAll ?_ (List.mem_map.mpr ⟨mi, member, rfl⟩)
  rw [List.pairwise_map]
  exact apart

end Run

section Order

variable {fmu state : FmuInstanceData} {items others : List FmuVarTableMarshalItem}

def FmuInstanceData.withItems (fmu : FmuInstanceData) (items : List FmuVarTableMarshalItem) :
    FmuInstanceData :=
  { fmu with marshalList := items }

@[simp] theorem withItems_marshalList (fmu : FmuInstanceData)
    (items : List FmuVarTableMarshalItem) : (fmu.withItems items).marshalList = items := rfl

@[simp] theorem getScalar_withItems (fmu : FmuInstanceData) (items : List FmuVarTableMarshalItem)
    (p : FmuSignalVectorIndex) : (fmu.withItems items).getScalar p = fmu.getScalar p := rfl

theorem fmi2SetReal_withItems (hashed : state.directIndex = none) (request : Request) :
    fmi2SetReal (state.withItems others) request =
      (fmi2SetReal state request).withItems others := by
  rw [fmi2SetReal_eq hashed, fmi2SetReal_eq (show (state.withItems others).directIndex = none
    from hashed)]
  clear hashed
  induction request generalizing state with
  | nil => rfl
  | cons entry request ih =>
      have here : setIndexed (state.withItems others) entry.1 entry.2 =
          (setIndexed state entry.1 entry.2).withItems others := by
        unfold setIndexed
        dsimp only [FmuInstanceData.withItems]
        split <;> rfl
      rw [List.foldl_cons, List.foldl_cons, here, ih]

theorem offered_withItems (listed : state.marshalList = items) (perm : items.Perm others)
    (apart : items.Pairwise fun mi mj => Disjoint8 mi.variableOffset mj.variableOffset) :
    offered (state.withItems others) = (offered state).withItems others := by
  have reset : fmuDefaultSignalsReset (state.withItems others) =
      (fmuDefaultSignalsReset state).withItems others := by
    by_cases pending : state.signalsReset = false <;>
      simp [fmuDefaultSignalsReset, FmuInstanceData.withItems, pending]
  have stored : state.table.storeAll
      (others.map fun mi => (mi.variableOffset, (state.getScalar mi.signal).getD 0)) =
      state.table.storeAll
        (items.map fun mi => (mi.variableOffset, (state.getScalar mi.signal).getD 0)) :=
    (Memory.storeAll_perm (by rwa [List.pairwise_map]) (perm.map _)).symm
  rw [offered_eq, offered_eq, reset, listed]
  simp only [withItems_marshalList, getScalar_withItems]
  rw [show (state.withItems others).table = state.table from rfl, stored]
  rfl

theorem foldl_marshalFromTable_perm
    (distinct : (items.map FmuVarTableMarshalItem.signal).Nodup) (perm : items.Perm others)
    (fmu : FmuInstanceData) :
    others.foldl marshalFromTable fmu = items.foldl marshalFromTable fmu := by
  refine (perm.foldl_eq' (fun mi hi mj hj gmu => ?_) fmu).symm
  by_cases same : mi = mj
  · rw [same]
  · refine marshalFromTable_comm gmu fun equal => same ?_
    exact List.inj_on_of_nodup_map distinct hi hj equal

theorem foldl_marshalFromTable_withItems (list : List FmuVarTableMarshalItem)
    (fmu : FmuInstanceData) (others : List FmuVarTableMarshalItem) :
    list.foldl marshalFromTable (fmu.withItems others) =
      (list.foldl marshalFromTable fmu).withItems others := by
  induction list generalizing fmu with
  | nil => rfl
  | cons mi list ih => exact ih (marshalFromTable fmu mi)

theorem fmi2DoStep_withItems (step : TableStep) (listed : state.marshalList = items)
    (perm : items.Perm others)
    (apart : items.Pairwise fun mi mj => Disjoint8 mi.variableOffset mj.variableOffset)
    (distinct : (items.map FmuVarTableMarshalItem.signal).Nodup) (t h : Double) :
    (fmi2DoStep step.toFmuStep (state.withItems others) t h).1 =
      (fmi2DoStep step.toFmuStep state t h).1.withItems others := by
  have offers := offered_withItems listed perm apart
  have run : (step.run (offered (state.withItems others)) t h).1 =
      (step.run (offered state) t h).1.withItems others := by
    rw [offers]
    exact congrArg Prod.fst (step.marshalList (offered state) others t h)
  have kept : (step.run (offered state) t h).1.marshalList = items := by
    rw [step.marshalList_run, offered_eq]
    unfold fmuDefaultSignalsReset
    split <;> exact listed
  simp only [fmi2DoStep, run, withItems_marshalList, kept, foldl_marshalFromTable_withItems,
    foldl_marshalFromTable_perm distinct perm]
  rfl

/-- A run does not depend on the order of the marshal list. -/
theorem runReals_withItems (hashed : fmu.directIndex = none) (running : Running fmu items state)
    (perm : items.Perm others)
    (apart : items.Pairwise fun mi mj => Disjoint8 mi.variableOffset mj.variableOffset)
    (distinct : (items.map FmuVarTableMarshalItem.signal).Nodup) (calls : List RealCall) :
    runReals (state.withItems others) calls = (runReals state calls).withItems others := by
  induction calls generalizing state with
  | nil => rfl
  | cons call calls ih =>
      have still : state.directIndex = none := running.maps.directIndex.trans hashed
      have here : call.run (state.withItems others) = (call.run state).withItems others := by
        cases call with
        | setReal request => exact fmi2SetReal_withItems still request
        | getReal request =>
            simp only [RealCall.run, getReals_indexed still,
              getReals_indexed (show (state.withItems others).directIndex = none from still)]
        | doStep step t h =>
            exact fmi2DoStep_withItems step running.marshalList perm apart distinct t h
      have next := ih (call.run_running distinct hashed running)
      rw [runReals, List.foldl_cons, here]
      exact next

end Order

structure TableExchange (fmu start : FmuInstanceData) (table : TablePointer)
    (regs : Registrations fmu) : Prop where
  first : ∀ r ∈ regs.list, ∀ p, r.signal fmu = some p → ∀ sets, NoStep sets →
    r.slot table (offered (runReals start sets)) =
      lastSet fmu p sets ((fmu.getScalar p).getD 0)
  later : ∀ r ∈ regs.list, ∀ p, r.signal fmu = some p → ∀ before step t h sets, NoStep sets →
    r.slot table (offered (runReals start (before ++ .doStep step t h :: sets))) =
      lastSet fmu p sets (r.slot table (stepped step (runReals start before) t h))
  returned : ∀ r ∈ regs.list, fmu.scalarPointer (vrIdx r.vref) = r.signal fmu →
    ∀ before step t h (request : Request) (i : Nat) slot, request[i]? = some (r.vref, slot) →
      (fmi2GetReal (runReals start (before ++ [.doStep step t h])) request).2[i]? =
        some (r.slot table (stepped step (runReals start before) t h))
  untouched : ∀ p, (∀ r ∈ regs.list, r.signal fmu ≠ some p) → ∀ before step t h,
    (offered (runReals start before)).getScalar p = (runReals start before).getScalar p ∧
      (runReals start (before ++ [.doStep step t h])).getScalar p =
        (stepped step (runReals start before) t h).getScalar p

def ValidScalars (fmu : FmuInstanceData) : Prop := ∀ k p, Points fmu k p → fmu.getScalar p ≠ none

section Exchange

variable {fmu : FmuInstanceData} {table : TablePointer} {keys : KeyLen}

theorem Registration.points {r : Registration} {p : FmuSignalVectorIndex}
    (found : r.signal fmu = some p) : Points fmu (vrIdx r.vref) p := by
  unfold Registration.signal lookupSignal at found
  split at found
  · exact .inr found
  · exact .inl found

theorem registerTable_running (keys : KeyLen) (table : TablePointer) (regs : Registrations fmu) :
    Running fmu (regs.list.filterMap (Registration.item fmu table))
      (registerTable keys table fmu regs.list) := by
  rw [registerTable_eq]
  exact ⟨⟨⟨rfl, rfl, rfl⟩, fun _ => id⟩, rfl⟩

section Slots

variable {regs : Registrations fmu} {r : Registration} {p : FmuSignalVectorIndex}
  {state : FmuInstanceData}
  (running : Running fmu (regs.list.filterMap (Registration.item fmu table)) state)
  (registered : r ∈ regs.list) (found : r.signal fmu = some p)

include registered found in
theorem Registrations.item_mem : FmuVarTableMarshalItem.mk (table.address + r.offset) p ∈
    regs.list.filterMap (Registration.item fmu table) :=
  (regs.mem_items table).mpr ⟨r, registered, found, rfl⟩

include running registered found in
theorem slot_offered : r.slot table (offered state) = (state.getScalar p).getD 0 := by
  have listed := running.marshalList
  have apart := regs.items_offsets table
  have member := @Registrations.item_mem _ table _ _ _ registered found
  rw [← listed] at apart member
  have value := load64_offered state apart member
  rw [Registration.slot]
  exact value

include running registered found in
theorem getScalar_fmi2DoStep (valid : fmu.getScalar p ≠ none) (step : TableStep) (t h : Double) :
    (fmi2DoStep step.toFmuStep state t h).1.getScalar p =
      some (r.slot table (stepped step state t h)) := by
  have copied := fmi2DoStep_fromTable (regs.items_signals table) step running t h
  have member := @Registrations.item_mem _ table _ _ _ registered found
  exact copied.entry _ member ((stepped_running step running t h).storage p valid)

end Slots

theorem tableExchange (valid : ValidScalars fmu) (hashed : fmu.directIndex = none)
    (regs : Registrations fmu) :
    TableExchange fmu (registerTable keys table fmu regs.list) table regs := by
  have start := registerTable_running keys table regs
  have initial : ∀ p, (registerTable keys table fmu regs.list).getScalar p = fmu.getScalar p := by
    intro p
    rw [registerTable_eq]
    rfl
  generalize registerTable keys table fmu regs.list = begin at start initial ⊢
  have reach := runReals_running (regs.items_signals table) hashed start
  refine ⟨?_, ?_, ?_, ?_⟩
  · intro r registered p found sets no_step
    have there := valid _ p (Registration.points found)
    obtain ⟨old, value⟩ := Option.ne_none_iff_exists'.mp there
    rw [slot_offered (reach sets) registered found,
      getScalar_runReals hashed start there no_step ((initial p).trans value), value]
    rfl
  · intro r registered p found before step t h sets no_step
    have there := valid _ p (Registration.points found)
    have split : before ++ RealCall.doStep step t h :: sets =
        (before ++ [.doStep step t h]) ++ sets := by simp
    have left := getScalar_fmi2DoStep (reach before) registered found there step t h
    rw [← runReals_append_doStep] at left
    rw [slot_offered (reach _) registered found, split, runReals_append,
      getScalar_runReals hashed (reach _) there no_step left]
    rfl
  · intro r registered read before step t h request i slot entry
    obtain ⟨p, found⟩ := Option.isSome_iff_exists.mp (regs.successful r registered)
    have there := valid _ p (Registration.points found)
    have running := reach (before ++ [.doStep step t h])
    have left := getScalar_fmi2DoStep (reach before) registered found there step t h
    rw [← runReals_append_doStep] at left
    rw [getReals_indexed (running.maps.directIndex.trans hashed), List.getElem?_map, entry,
      Option.map_some, running.maps.scalarPointer, read, found, Option.bind_some, left]
    rfl
  · intro p unregistered before step t h
    refine ⟨getScalar_offered _ p, ?_⟩
    rw [runReals_append_doStep]
    have copied := fmi2DoStep_fromTable (regs.items_signals table) step (reach before) t h
    refine copied.other p fun member => ?_
    obtain ⟨mi, listed, rfl⟩ := List.mem_map.mp member
    obtain ⟨r, registered, found, _⟩ := (regs.mem_items table).mp listed
    exact unregistered r registered found

theorem runReals_registrationOrder (hashed : fmu.directIndex = none)
    (regs others : Registrations fmu) (perm : regs.list.Perm others.list) (calls : List RealCall) :
    runReals (registerTable keys table fmu others.list) calls =
      (runReals (registerTable keys table fmu regs.list) calls).withItems
        (others.list.filterMap (Registration.item fmu table)) := by
  have start : registerTable keys table fmu others.list =
      (registerTable keys table fmu regs.list).withItems
        (others.list.filterMap (Registration.item fmu table)) := by
    rw [registerTable_eq, registerTable_eq]
    rfl
  rw [start]
  exact runReals_withItems hashed (registerTable_running keys table regs) (perm.filterMap _)
    (regs.items_offsets table) (regs.items_signals table) calls

/-- The exchange through the table, for every order of the registrations. -/
theorem tableExchange_anyOrder (keys : KeyLen) (table : TablePointer) (valid : ValidScalars fmu)
    (hashed : fmu.directIndex = none) (regs : Registrations fmu) :
    TableExchange fmu (registerTable keys table fmu regs.list) table regs ∧
      ∀ others : Registrations fmu, regs.list.Perm others.list → ∀ calls,
        runReals (registerTable keys table fmu others.list) calls =
          (runReals (registerTable keys table fmu regs.list) calls).withItems
            (others.list.filterMap (Registration.item fmu table)) :=
  ⟨tableExchange valid hashed regs,
    fun others perm calls => runReals_registrationOrder hashed regs others perm calls⟩

end Exchange

def variablesInstance (doc : List ScalarVariable) : FmuInstanceData :=
  (fmuDefaultSignalsSetup (fun _ => false) (some doc) .null).getD .null

theorem variablesInstance_indexed (doc : List ScalarVariable) :
    ValidScalars (variablesInstance doc) ∧ (variablesInstance doc).directIndex = none := by
  obtain ⟨fmu, setup, indexed, direct⟩ := fmuDefaultSignalsSetup_scalars (fun _ => false) doc
    (show NoScalars .null from ⟨rfl, rfl⟩)
  rw [variablesInstance, setup]
  exact ⟨indexed.valid, direct⟩

def linearVariables : List ScalarVariable :=
  [⟨"input", "1", some "input", [.element "Real" []]⟩,
    ⟨"output", "4", some "output", [.element "Real" []]⟩]

def linearCalls : List Registration := [⟨1, true, 0⟩, ⟨4, false, 8⟩]

def shortKeys : KeyLen := ⟨11, Nat.le_refl 11⟩

def lowTable : TablePointer := ⟨8, Nat.succ_ne_zero 7⟩

/-- An input at the start of the table and an output behind it. -/
theorem tableExchange_linear :
    ∃ regs : Registrations (variablesInstance linearVariables), regs.list = linearCalls ∧
      TableExchange (variablesInstance linearVariables)
        (registerTable shortKeys lowTable (variablesInstance linearVariables) linearCalls)
        lowTable regs := by
  have indexed := variablesInstance_indexed linearVariables
  have small : ∀ r ∈ linearCalls, r.vref.toNat < 2 ^ 31 := by decide
  have successful : ∀ r ∈ linearCalls, (r.signal (variablesInstance linearVariables)).isSome := by
    decide
  have signals : (linearCalls.map fun r =>
      r.signal (variablesInstance linearVariables)).Nodup := by decide
  have offsets : linearCalls.Pairwise fun r s => Disjoint8 r.offset s.offset := by decide
  let regs : Registrations (variablesInstance linearVariables) :=
    ⟨linearCalls, by decide, small, successful, signals, offsets⟩
  exact ⟨regs, rfl, (tableExchange_anyOrder shortKeys lowTable indexed.1 indexed.2 regs).1⟩

def idleTableStep : TableStep where
  toFmuStep := idleStep
  scalars _ _ _ := ⟨rfl, rfl, rfl⟩
  storage _ _ _ _ := id
  marshalList _ _ _ _ := rfl

def sharedVariables : List ScalarVariable :=
  [⟨"u", "1", some "input", [.element "Real" []]⟩,
    ⟨"y", "1", some "output", [.element "Real" []]⟩]

/-- The getter returns the output when the input of the same reference is registered. -/
theorem fmi2GetReal_sharedReference :
    ∃ regs : Registrations (variablesInstance sharedVariables), ∃ r ∈ regs.list,
      r.slot lowTable (stepped idleTableStep
        (runReals (registerTable shortKeys lowTable (variablesInstance sharedVariables) regs.list)
          [.setReal [(1, 5)]]) 0 0) = 5 ∧
      (fmi2GetReal
        (runReals (registerTable shortKeys lowTable (variablesInstance sharedVariables) regs.list)
          [.setReal [(1, 5)], .doStep idleTableStep 0 0]) [(1, 7)]).2 = [0] := by
  refine ⟨⟨[⟨1, true, 0⟩], ?_, ?_, ?_, ?_, ?_⟩, ⟨1, true, 0⟩, ?_, ?_, ?_⟩
  · decide
  · decide
  · decide
  · decide
  · decide
  · decide
  · decide
  · decide

end DseFmi.Fmu

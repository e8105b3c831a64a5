import DseFmi.Fmu.Period
import DseFmi.Importer.Cosim

/-!
# The loopback of binary data

Each step of a loop offers the FMU what it has transmitted at the end of the step before. In
FMI 3 the text of a value comes with a size, which the importer never sets.
-/

namespace DseFmi.Importer

open DseFmi.Fmu (CLib CString)

def sentBytes (lib : CLib) (entry : BinaryVariable × Option CString) : List UInt8 :=
  match entry.1.info.mimeType, entry.2 with
  | some _, some text => lib.dseAscii85Decode text
  | _, _ => []

/-- What the returned values transmit together, in the order of the variables. They are texts up to
a NUL: the sizes that an FMU returns with them are not looked at. -/
def transmitted (lib : CLib) (desc : ModelDescription) (returned : List (Option CString)) :
    List UInt8 :=
  (desc.txBinary.zip returned).flatMap (sentBytes lib)

/-- Every MIME type has a codec, of another type than `frame`. -/
def HasCodecs (ncodec : NCodec) (desc : ModelDescription) : Prop :=
  ∀ v ∈ desc.rxBinary ++ desc.txBinary, ∀ mimeType, v.info.mimeType = some mimeType →
    ncodec.create mimeType = true ∧ v.info.type ≠ none ∧ v.info.type ≠ some "frame"

def sizedText (size : Nat) (text : CString) : CString :=
  ⟨text.bytes.take size, fun nul => text.no_nul (List.mem_of_mem_take nul)⟩

/-- The value for the variable `i` is a text that decodes to the data. -/
def OffersText (lib : CLib) (now : Exchange) (i : Nat) (data : List UInt8) : Prop :=
  ∃ text, now.offered[i]? = some (some text) ∧ lib.dseAscii85Decode text = data

/-- The value for the variable `i` is a text with a size, within which it decodes to the data. -/
def OffersBinary (lib : CLib) (now : Exchange) (i : Nat) (data : List UInt8) : Prop :=
  ∃ size text, now.sizes[i]? = some size ∧ now.offered[i]? = some (some text) ∧
    lib.dseAscii85Decode (sizedText size text) = data

section Step

variable (lib : CLib) {ncodec : NCodec} {network : List NetworkSignal} {content : List UInt8}

theorem pushBinary_bus {entries : List (BinaryVariable × Option CString)}
    (bus : IsBus oneNetwork network content)
    (created : ∀ entry ∈ entries, ∀ mimeType, entry.1.info.mimeType = some mimeType →
      ncodec.create mimeType = true) :
    IsBus oneNetwork (pushBinary lib ncodec true network entries).1
      (content ++ entries.flatMap (sentBytes lib)) := by
  induction entries generalizing network content with
  | nil => simpa [pushBinary] using bus
  | cons entry entries ih =>
      obtain ⟨v, val⟩ := entry
      have later := fun e member => created e (List.mem_cons_of_mem _ member)
      rw [List.flatMap_cons, ← List.append_assoc]
      cases mime : v.info.mimeType with
      | none => simpa [pushBinary, sentBytes, mime] using ih bus later
      | some mimeType =>
          cases val with
          | none => simpa [pushBinary, sentBytes, mime] using ih bus later
          | some text =>
              have one := created _ List.mem_cons_self mimeType mime
              have pushed := ih (bus.networkPush one (lib.dseAscii85Decode text)) later
              simpa [pushBinary, sentBytes, mime] using pushed

theorem injectFrame_eq {desc : ModelDescription} (codecs : HasCodecs ncodec desc) (step : Nat)
    (network : List NetworkSignal) :
    injectFrame ncodec desc.txBinary step network = network := by
  cases tx : desc.txBinary with
  | nil => rfl
  | cons v rest =>
      cases mime : v.info.mimeType with
      | none => simp [injectFrame, mime]
      | some mimeType =>
          have other := (codecs v (by simp [tx]) mimeType mime).2.2
          simp [injectFrame, mime, other]

theorem pullBinary_offers {entries : List (BinaryVariable × Option CString)}
    (bus : IsBus oneNetwork network content)
    (created : ∀ entry ∈ entries, ∀ mimeType, entry.1.info.mimeType = some mimeType →
      ncodec.create mimeType = true) :
    IsBus oneNetwork (pullBinary lib ncodec network entries).1 content ∧
      (pullBinary lib ncodec network entries).2 =
        entries.map fun entry =>
          if entry.1.info.mimeType = none then entry.2
          else some (lib.dseAscii85Encode content) := by
  induction entries generalizing network with
  | nil => exact ⟨bus, rfl⟩
  | cons entry entries ih =>
      obtain ⟨v, val⟩ := entry
      have later := fun e member => created e (List.mem_cons_of_mem _ member)
      cases mime : v.info.mimeType with
      | none =>
          obtain ⟨kept, vals⟩ := ih bus later
          simp [pullBinary, mime, kept, vals]
      | some mimeType =>
          have one := created _ List.mem_cons_self mimeType mime
          obtain ⟨left, data⟩ := bus.networkPull one
          obtain ⟨kept, vals⟩ := ih left later
          simp [pullBinary, mime, kept, vals, data]

variable {F D : Type} {desc : ModelDescription}

structure Between (desc : ModelDescription) (s : ImporterState F D) : Prop where
  bus : ∃ content, IsBus oneNetwork s.network content
  values : s.valRxBinary.length = desc.rxBinary.length
  sizes : s.valSizeRxBinary.length = desc.rxBinary.length

theorem HasCodecs.created (codecs : HasCodecs ncodec desc) {vars : List BinaryVariable}
    (listed : ∀ v ∈ vars, v ∈ desc.rxBinary ++ desc.txBinary) (vals : List (Option CString)) :
    ∀ entry ∈ vars.zip vals, ∀ mimeType, entry.1.info.mimeType = some mimeType →
      ncodec.create mimeType = true :=
  fun entry member mimeType mime =>
    (codecs entry.1 (listed _ (List.of_mem_zip member).1) mimeType mime).1

/-- All variables with a codec are offered the same text. -/
theorem loopback_offers {s : ImporterState F D} (between : Between desc s)
    (codecs : HasCodecs ncodec desc) (step : Nat) :
    (∃ content, IsBus oneNetwork (loopback lib ncodec true desc step s).network content) ∧
      (loopback lib ncodec true desc step s).valRxBinary.length = desc.rxBinary.length ∧
      ∀ (i : Nat) (v : BinaryVariable), desc.rxBinary[i]? = some v → v.info.mimeType ≠ none →
        (loopback lib ncodec true desc step s).valRxBinary[i]? =
          some (some (lib.dseAscii85Encode (transmitted lib desc s.valTxBinary))) := by
  obtain ⟨content, bus⟩ := between.bus
  have pushed := pushBinary_bus lib bus.networkTruncate
    (codecs.created (fun v member => List.mem_append_right _ member) s.valTxBinary)
  rw [List.nil_append, ← transmitted] at pushed
  obtain ⟨pulled, vals⟩ := pullBinary_offers lib pushed
    (codecs.created (fun v member => List.mem_append_left _ member) s.valRxBinary)
  refine ⟨⟨transmitted lib desc s.valTxBinary, ?_⟩, ?_, ?_⟩
  · simpa only [loopback, injectFrame_eq codecs] using pulled
  · simp [loopback, injectFrame_eq codecs, vals, between.values]
  · intro i v at_i mime
    have inRange : i < s.valRxBinary.length := by
      rw [between.values]
      exact (List.getElem?_eq_some_iff.mp at_i).1
    have entry : (desc.rxBinary.zip s.valRxBinary)[i]? = some (v, s.valRxBinary[i]) := by
      rw [List.getElem?_zip_eq_some]
      exact ⟨at_i, List.getElem?_eq_getElem inRange⟩
    simp [loopback, injectFrame_eq codecs, vals, entry, mime]

@[simp] theorem loopback_sizes (enabled : Bool) (step : Nat) (s : ImporterState F D) :
    (loopback lib ncodec enabled desc step s).valSizeRxBinary = s.valSizeRxBinary := rfl

end Step

section Loops

variable {F G D : Type} [LinearOrder D] {numbers : Numbers D} {lib : CLib} {ncodec : NCodec}
  {desc : ModelDescription}

theorem applySamplesAt_keeps (numbers : Numbers D) (s : ImporterState F D) (time : D) :
    (applySamplesAt numbers s time).network = s.network ∧
      (applySamplesAt numbers s time).valRxBinary = s.valRxBinary ∧
      (applySamplesAt numbers s time).valTxBinary = s.valTxBinary ∧
      (applySamplesAt numbers s time).valSizeRxBinary = s.valSizeRxBinary := by
  unfold applySamplesAt
  split
  · exact ⟨rfl, rfl, rfl, rfl⟩
  · exact ⟨rfl, rfl, rfl, rfl⟩

theorem Between.applySamplesAt {s : ImporterState F D} (between : Between desc s) (time : D) :
    Between desc (applySamplesAt numbers s time) := by
  obtain ⟨network, values, -, sizes⟩ := applySamplesAt_keeps numbers s time
  exact ⟨by rw [network]; exact between.bus, by rw [values]; exact between.values,
    by rw [sizes]; exact between.sizes⟩

theorem between_start (fmu : F) (starts txStarts : List D) (csv : Option (CsvDesc D)) :
    Between desc (startState numbers desc fmu starts txStarts csv) := by
  apply Between.applySamplesAt
  exact ⟨⟨[], .absent⟩, List.length_map _, List.length_map _⟩

/-- What an exchange offers, of the values that were returned before it. -/
def Offers (lib : CLib) (desc : ModelDescription) (vals : List (Option CString)) (now : Exchange) :
    Prop :=
  ∀ (i : Nat) (v : BinaryVariable), desc.rxBinary[i]? = some v → v.info.mimeType ≠ none →
    now.offered[i]? = some (some (lib.dseAscii85Encode (transmitted lib desc vals)))

variable [Add D] {stepSize : D}

theorem fmu2Step_offers {fmi : Fmi2Functions F D} {s : ImporterState F D}
    (between : Between desc s) (codecs : HasCodecs ncodec desc) (step : Nat) :
    Between desc (fmu2Step numbers lib ncodec true desc stepSize fmi step s).1 ∧
      (fmu2Step numbers lib ncodec true desc stepSize fmi step s).1.valTxBinary =
        (fmu2Step numbers lib ncodec true desc stepSize fmi step s).2.returned ∧
      Offers lib desc s.valTxBinary
        (fmu2Step numbers lib ncodec true desc stepSize fmi step s).2 := by
  obtain ⟨bus, length, offers⟩ := loopback_offers lib between codecs step
  refine ⟨?_, (applySamplesAt_keeps numbers _ _).2.2.1, offers⟩
  apply Between.applySamplesAt
  exact ⟨bus, (List.length_map _).trans length, between.sizes⟩

variable (numbers lib stepSize) in
theorem fmu3Step_offers (fmi : Fmi3Functions F D) {s : ImporterState F D}
    (between : Between desc s) (codecs : HasCodecs ncodec desc) (step : Nat) :
    Between desc (fmu3Step numbers lib ncodec true desc stepSize fmi step s).1 ∧
      (fmu3Step numbers lib ncodec true desc stepSize fmi step s).1.valTxBinary =
        (fmu3Step numbers lib ncodec true desc stepSize fmi step s).2.returned ∧
      (fmu3Step numbers lib ncodec true desc stepSize fmi step s).2.sizes = s.valSizeRxBinary ∧
      Offers lib desc s.valTxBinary
        (fmu3Step numbers lib ncodec true desc stepSize fmi step s).2 := by
  obtain ⟨bus, length, offers⟩ := loopback_offers lib between codecs step
  refine ⟨?_, (applySamplesAt_keeps numbers _ _).2.2.1, rfl, offers⟩
  apply Between.applySamplesAt
  exact ⟨bus, (List.length_map _).trans length,
    (fmi.length_sizes _ _ _ _).trans between.sizes⟩

variable (numbers lib ncodec desc stepSize) in
theorem fmu3Step_sizes (fmi : Fmi3Functions F D) (s : ImporterState F D) (step : Nat) :
    ∃ fmu vr vals, (fmu3Step numbers lib ncodec true desc stepSize fmi step s).1.valSizeRxBinary =
      (fmi.setBinary fmu vr s.valSizeRxBinary vals).2 :=
  ⟨_, _, _, (applySamplesAt_keeps numbers _ _).2.2.2⟩

end Loops

theorem runSteps_between {S E : Type} {body : Nat → S → S × E} (inv : S → Prop)
    (after : E → S → Prop) (before : S → E → Prop)
    (keeps : ∀ step s, inv s →
      inv (body step s).1 ∧ after (body step s).2 (body step s).1 ∧ before s (body step s).2)
    {steps step : Nat} {s : S} (start : inv s) {n : Nat} {first second : E}
    (at_n : (runSteps body steps step s)[n]? = some first)
    (next : (runSteps body steps step s)[n + 1]? = some second) :
    ∃ t, inv t ∧ after first t ∧ before t second := by
  induction steps generalizing step s n with
  | zero => simp [runSteps] at at_n
  | succ steps ih =>
      obtain ⟨kept, left, -⟩ := keeps step s start
      cases n with
      | zero =>
          obtain rfl : (body step s).2 = first := by simpa [runSteps] using at_n
          refine ⟨(body step s).1, kept, left, ?_⟩
          cases steps with
          | zero => simp [runSteps] at next
          | succ steps =>
              obtain rfl : (body (step + 1) (body step s).1).2 = second := by
                simpa [runSteps] using next
              exact (keeps (step + 1) _ kept).2.2
      | succ n => exact ih kept (by simpa [runSteps] using at_n) (by simpa [runSteps] using next)

/-- In every step but the first one, for every variable with a codec, and for what was
transmitted at the end of the step before. -/
def EachLaterStep (lib : CLib) (desc : ModelDescription) (exchanges : List Exchange)
    (p : Exchange → Nat → List UInt8 → Prop) : Prop :=
  ∀ (n : Nat) (before now : Exchange), exchanges[n]? = some before →
    exchanges[n + 1]? = some now →
      ∀ (i : Nat) (v : BinaryVariable), desc.rxBinary[i]? = some v → v.info.mimeType ≠ none →
        p now i (transmitted lib desc before.returned)

section Runs

variable {F G D : Type} [LinearOrder D] [Add D] {numbers : Numbers D} {lib : CLib}
  {ncodec : NCodec} {desc : ModelDescription} {stepSize : D}

theorem offersText_of_offers
    (inverts : ∀ data, lib.dseAscii85Decode (lib.dseAscii85Encode data) = data)
    {vals : List (Option CString)} {now : Exchange} (offers : Offers lib desc vals now) {i : Nat}
    {v : BinaryVariable} (at_i : desc.rxBinary[i]? = some v) (codec : v.info.mimeType ≠ none) :
    OffersText lib now i (transmitted lib desc vals) :=
  ⟨_, offers i v at_i codec, inverts _⟩

theorem offersBinary_iff {vals : List (Option CString)} {now : Exchange}
    (offers : Offers lib desc vals now) {i : Nat} {v : BinaryVariable}
    (at_i : desc.rxBinary[i]? = some v) (codec : v.info.mimeType ≠ none) (data : List UInt8) :
    OffersBinary lib now i data ↔ ∃ size, now.sizes[i]? = some size ∧
      lib.dseAscii85Decode
        (sizedText size (lib.dseAscii85Encode (transmitted lib desc vals))) = data := by
  have offered := offers i v at_i codec
  constructor
  · rintro ⟨size, text, at_size, at_text, decodes⟩
    obtain rfl : lib.dseAscii85Encode (transmitted lib desc vals) = text := by
      simpa using offered.symm.trans at_text
    exact ⟨size, at_size, decodes⟩
  · rintro ⟨size, at_size, decodes⟩
    exact ⟨size, _, at_size, offered, decodes⟩

theorem sizedText_zero (text : CString) : sizedText 0 text = ⟨[], List.not_mem_nil⟩ := rfl

theorem decode_empty (inverts : ∀ data, lib.dseAscii85Decode (lib.dseAscii85Encode data) = data)
    (empty : lib.dseAscii85Encode [] = ⟨[], List.not_mem_nil⟩) (size : Nat) :
    lib.dseAscii85Decode (sizedText size (lib.dseAscii85Encode [])) = [] := by
  have same : sizedText size (lib.dseAscii85Encode []) = lib.dseAscii85Encode [] := by
    rw [empty]
    simp [sizedText]
  rw [same, inverts]

section Sized

variable {vals : List (Option CString)} {now : Exchange} {i : Nat} {v : BinaryVariable}
  (inverts : ∀ data, lib.dseAscii85Decode (lib.dseAscii85Encode data) = data)
  (empty : lib.dseAscii85Encode [] = ⟨[], List.not_mem_nil⟩)
  (offers : Offers lib desc vals now) (length : now.sizes.length = desc.rxBinary.length)
  (at_i : desc.rxBinary[i]? = some v) (codec : v.info.mimeType ≠ none)
include inverts empty offers length at_i codec

theorem offersBinary_sized_iff :
    OffersBinary lib now i (transmitted lib desc vals) ↔
      transmitted lib desc vals = [] ∨ ∃ size, now.sizes[i]? = some size ∧
        lib.dseAscii85Decode (sizedText size (lib.dseAscii85Encode (transmitted lib desc vals))) =
          transmitted lib desc vals := by
  rw [offersBinary_iff offers at_i codec]
  constructor
  · exact Or.inr
  · intro right
    cases right with
    | inl nothing =>
        have inRange : i < now.sizes.length := by
          rw [length]
          exact (List.getElem?_eq_some_iff.mp at_i).1
        refine ⟨now.sizes[i], List.getElem?_eq_getElem inRange, ?_⟩
        rw [nothing]
        exact decode_empty inverts empty _
    | inr sized => exact sized

theorem offersBinary_zero_iff (zero : ∀ size ∈ now.sizes, size = 0) :
    OffersBinary lib now i (transmitted lib desc vals) ↔ transmitted lib desc vals = [] := by
  have nothing : lib.dseAscii85Decode
      (sizedText 0 (lib.dseAscii85Encode (transmitted lib desc vals))) = [] := by
    rw [sizedText_zero, ← empty, inverts]
  rw [offersBinary_sized_iff inverts empty offers length at_i codec]
  constructor
  · rintro (none_sent | ⟨size, at_size, decodes⟩)
    · exact none_sent
    · rw [zero size (List.mem_of_getElem? at_size), nothing] at decodes
      exact decodes.symm
  · exact Or.inl

end Sized

/-- An FMU that leaves the array of the sizes as it is, which it is given as a constant. -/
def LeavesSizes (fmi : Fmi3Functions G D) : Prop :=
  ∀ fmu vr sizes vals, (fmi.setBinary fmu vr sizes vals).2 = sizes

theorem runFmu2Cosim_offers {fmi : Fmi2Functions F D} (codecs : HasCodecs ncodec desc)
    {steps : Nat} {start : ImporterState F D} (between : Between desc start) {n : Nat}
    {before now : Exchange}
    (at_n : (runFmu2Cosim numbers lib ncodec true desc stepSize steps start fmi)[n]? = some before)
    (next : (runFmu2Cosim numbers lib ncodec true desc stepSize steps start fmi)[n + 1]? =
      some now) : Offers lib desc before.returned now := by
  obtain ⟨s, -, left, offers⟩ := runSteps_between (Between desc)
    (fun (e : Exchange) (s : ImporterState F D) => s.valTxBinary = e.returned)
    (fun s e => Offers lib desc s.valTxBinary e)
    (fun step s held => fmu2Step_offers held codecs step) between at_n next
  rw [← left]
  exact offers

/-- The sizes are those in the array, in which only the FMU can have left any. -/
theorem runFmu3Cosim_offers {fmi : Fmi3Functions G D} (codecs : HasCodecs ncodec desc)
    {steps : Nat} {start : ImporterState G D} (between : Between desc start)
    (zero : ∀ size ∈ start.valSizeRxBinary, size = 0) {n : Nat} {before now : Exchange}
    (at_n : (runFmu3Cosim numbers lib ncodec true desc stepSize steps start fmi)[n]? = some before)
    (next : (runFmu3Cosim numbers lib ncodec true desc stepSize steps start fmi)[n + 1]? =
      some now) :
    Offers lib desc before.returned now ∧ now.sizes.length = desc.rxBinary.length ∧
      (LeavesSizes fmi → ∀ size ∈ now.sizes, size = 0) := by
  obtain ⟨s, held, left, offers, sizes⟩ := runSteps_between
    (fun s => Between desc s ∧ (LeavesSizes fmi → ∀ size ∈ s.valSizeRxBinary, size = 0))
    (fun (e : Exchange) (s : ImporterState G D) => s.valTxBinary = e.returned)
    (fun s e => Offers lib desc s.valTxBinary e ∧ e.sizes = s.valSizeRxBinary)
    (by
      rintro step s ⟨held, sizes⟩
      obtain ⟨kept, left, offered, offers⟩ :=
        fmu3Step_offers numbers lib stepSize fmi held codecs step
      refine ⟨⟨kept, ?_⟩, left, offers, offered⟩
      intro leaves
      obtain ⟨fmu, vr, vals, array⟩ :=
        fmu3Step_sizes numbers lib ncodec desc stepSize fmi s step
      rw [array, leaves]
      exact sizes leaves)
    ⟨between, fun _ => zero⟩ at_n next
  rw [← left, sizes]
  exact ⟨offers, held.1.sizes, held.2⟩

omit [Add D] in
theorem startState_sizes (numbers : Numbers D) (desc : ModelDescription) (fmu : G)
    (starts txStarts : List D) (csv : Option (CsvDesc D)) :
    ∀ size ∈ (startState numbers desc fmu starts txStarts csv).valSizeRxBinary, size = 0 := by
  rw [startState, (applySamplesAt_keeps numbers _ _).2.2.2]
  intro size member
  obtain ⟨-, -, rfl⟩ := List.mem_map.mp member
  rfl

/-- The text decodes to what was transmitted in both loops. In FMI 3 the value also has a size,
and is right exactly when nothing was transmitted, or when the FMU itself has left a size within
which the text decodes to it. -/
theorem cosim_offers_iff (numbers : Numbers D) (lib : CLib) (ncodec : NCodec)
    (desc : ModelDescription) (stepSize : D)
    (inverts : ∀ data, lib.dseAscii85Decode (lib.dseAscii85Encode data) = data)
    (empty : lib.dseAscii85Encode [] = ⟨[], List.not_mem_nil⟩) (codecs : HasCodecs ncodec desc)
    (fmi2 : Fmi2Functions F D) (fmi3 : Fmi3Functions G D) (fmu : F) (gmu : G)
    (starts txStarts : List D) (csv : Option (CsvDesc D)) (steps : Nat) :
    EachLaterStep lib desc
        (runFmu2Cosim numbers lib ncodec true desc stepSize steps
          (startState numbers desc fmu starts txStarts csv) fmi2)
        (OffersText lib) ∧
      EachLaterStep lib desc
        (runFmu3Cosim numbers lib ncodec true desc stepSize steps
          (startState numbers desc gmu starts txStarts csv) fmi3)
        (OffersText lib) ∧
      EachLaterStep lib desc
        (runFmu3Cosim numbers lib ncodec true desc stepSize steps
          (startState numbers desc gmu starts txStarts csv) fmi3)
        (fun now i data => OffersBinary lib now i data ↔
          data = [] ∨ ∃ size, now.sizes[i]? = some size ∧
            lib.dseAscii85Decode (sizedText size (lib.dseAscii85Encode data)) = data) ∧
      (LeavesSizes fmi3 →
        EachLaterStep lib desc
          (runFmu3Cosim numbers lib ncodec true desc stepSize steps
            (startState numbers desc gmu starts txStarts csv) fmi3)
          (fun now i data => OffersBinary lib now i data ↔ data = [])) := by
  have between2 := @between_start F D _ numbers desc fmu starts txStarts csv
  have between3 := @between_start G D _ numbers desc gmu starts txStarts csv
  have sizes := startState_sizes numbers desc gmu starts txStarts csv
  refine ⟨?_, ?_, ?_, ?_⟩
  · intro n before now at_n next i v at_i codec
    exact offersText_of_offers inverts (runFmu2Cosim_offers codecs between2 at_n next) at_i codec
  · intro n before now at_n next i v at_i codec
    have offers := (runFmu3Cosim_offers codecs between3 sizes at_n next).1
    exact offersText_of_offers inverts offers at_i codec
  · intro n before now at_n next i v at_i codec
    obtain ⟨offers, length, _⟩ := runFmu3Cosim_offers codecs between3 sizes at_n next
    exact offersBinary_sized_iff inverts empty offers length at_i codec
  · intro leaves n before now at_n next i v at_i codec
    obtain ⟨offers, length, zero⟩ := runFmu3Cosim_offers codecs between3 sizes at_n next
    exact offersBinary_zero_iff inverts empty offers length at_i codec (zero leaves)

end Runs

def escapeByte (b : UInt8) : List UInt8 := if b = 0 then [1, 1] else if b = 1 then [1, 2] else [b]

def unescape : List UInt8 → List UInt8
  | [] => []
  | [b] => [b]
  | b :: c :: rest => if b = 1 then (c - 1) :: unescape rest else b :: unescape (c :: rest)

theorem unescape_escape (data : List UInt8) : unescape (data.flatMap escapeByte) = data := by
  induction data with
  | nil => rfl
  | cons b data ih =>
      rw [List.flatMap_cons, escapeByte]
      split
      next zero =>
        simp [unescape, ih, zero]
      · split
        next one =>
          simp [unescape, ih, one]
        next other =>
          cases rest : data.flatMap escapeByte with
          | nil =>
              rw [rest] at ih
              simp [unescape, ← ih]
          | cons c rest' =>
              rw [rest] at ih
              simp [unescape, other, ih]

theorem escape_no_nul (data : List UInt8) : 0 ∉ 2 :: data.flatMap escapeByte := by
  intro nul
  have escaped : (0 : UInt8) ∈ data.flatMap escapeByte := by simpa using nul
  obtain ⟨b, -, member⟩ := List.mem_flatMap.mp escaped
  unfold escapeByte at member
  split at member
  · simp at member
  · split at member
    · simp at member
    next other _ =>
      exact other (by simpa using (List.mem_singleton.mp member).symm)

theorem nil_no_nul : (0 : UInt8) ∉ [] := List.not_mem_nil

open DseFmi.Fmu (Buffer greeting greetingAscii85) in
/-- The library, with the encoding of the greeting. Other data is only escaped. -/
def escapingLib : CLib where
  dseBufferAppend := Buffer.append
  dseAscii85Encode data :=
    if data.isEmpty then ⟨[], nil_no_nul⟩
    else if data = greeting then greetingAscii85
    else ⟨2 :: data.flatMap escapeByte, escape_no_nul data⟩
  dseAscii85Decode text :=
    if text = greetingAscii85 then greeting else unescape (text.bytes.drop 1)
  content_append := Buffer.content_append

theorem escapingLib_inverts (data : List UInt8) :
    escapingLib.dseAscii85Decode (escapingLib.dseAscii85Encode data) = data := by
  simp only [escapingLib]
  by_cases empty : data.isEmpty = true
  · rw [if_pos empty, List.isEmpty_iff.mp empty]
    decide
  · rw [if_neg empty]
    by_cases greets : data = Fmu.greeting
    · rw [if_pos greets, greets]
      decide
    · rw [if_neg greets]
      have other : (⟨2 :: data.flatMap escapeByte, escape_no_nul data⟩ : CString) ≠
          Fmu.greetingAscii85 := by
        intro same
        have first := congrArg (fun text : CString => text.bytes.head?) same
        simp [Fmu.greetingAscii85] at first
      rw [if_neg other]
      exact unescape_escape data

def oneCodec : BinaryData := ⟨some "application/x-automotive-bus; type=pdu", some "pdu"⟩

def busVariables : ModelDescription where
  vrRxReal := []
  vrTxReal := []
  rxBinary := [⟨3, oneCodec⟩]
  txBinary := [⟨1, oneCodec⟩, ⟨2, oneCodec⟩]

def pduCodecs : NCodec where
  create mimeType := mimeType = "application/x-automotive-bus; type=pdu"
  canFrame _ _ _ := []

theorem hasCodecs_busVariables : HasCodecs pduCodecs busVariables := by
  intro v member mimeType mime
  have info : v.info = oneCodec := by
    simp only [busVariables, List.cons_append, List.nil_append, List.mem_cons,
      List.not_mem_nil, or_false] at member
    rcases member with rfl | rfl | rfl <;> rfl
  rw [info] at mime ⊢
  cases mime
  decide

/-- The first output sends the greeting in every step, the second one nothing. -/
def greetingFmu2 : Fmi2Functions Unit Int where
  setString _ _ _ := ()
  setReal _ _ _ := ()
  doStep _ _ _ := ((), 0)
  getReal _ _ vals := ((), vals)
  getString _ vrs _ := ((), vrs.map fun vr => if vr = 1 then some Fmu.greetingAscii85 else none)

def greetingFmu3 : Fmi3Functions Unit Int where
  setBinary _ _ sizes _ := ((), sizes)
  setFloat64 _ _ _ := ()
  doStep _ _ _ := ((), 0)
  getFloat64 _ _ vals := ((), vals)
  getBinary _ vrs _ _ :=
    ((), vrs.map fun vr => if vr = 1 then 12 else 0,
      vrs.map fun vr => if vr = 1 then some Fmu.greetingAscii85 else none)
  length_sizes _ _ _ _ := rfl

def twoSteps3 : List Exchange :=
  runFmu3Cosim decimal escapingLib pduCodecs true busVariables 1 2
    (startState decimal busVariables () [] [] none) greetingFmu3

theorem twoSteps3_eq : twoSteps3 =
    [⟨[0], [some ⟨[], List.not_mem_nil⟩], [some Fmu.greetingAscii85, none]⟩,
      ⟨[0], [some Fmu.greetingAscii85], [some Fmu.greetingAscii85, none]⟩] := by
  decide +kernel

/-- In the second step the value has the size 0, and the greeting is lost. -/
theorem runFmu3Cosim_losesGreeting :
    ¬ EachLaterStep escapingLib busVariables twoSteps3 (OffersBinary escapingLib) := by
  intro offered
  obtain ⟨size, text, at_size, at_text, decodes⟩ := offered 0 _ _
    (by rw [twoSteps3_eq]; rfl) (by rw [twoSteps3_eq]; rfl) 0 ⟨3, oneCodec⟩ rfl (by decide)
  obtain rfl : 0 = size := by simpa using at_size
  obtain rfl : Fmu.greetingAscii85 = text := by simpa using at_text
  have sent : transmitted escapingLib busVariables [some Fmu.greetingAscii85, none] =
      Fmu.greeting := by decide +kernel
  have nothing : escapingLib.dseAscii85Decode (sizedText 0 Fmu.greetingAscii85) = [] := by
    decide +kernel
  have lost : ([] : List UInt8) = Fmu.greeting := nothing.symm.trans (decodes.trans sent)
  cases lost

def twoSteps2 : List Exchange :=
  runFmu2Cosim decimal escapingLib pduCodecs true busVariables 1 2
    (startState decimal busVariables () [] [] none) greetingFmu2

theorem cosim_offers_iff_greeting :
    EachLaterStep escapingLib busVariables twoSteps2 (OffersText escapingLib) ∧
      EachLaterStep escapingLib busVariables twoSteps3 (OffersText escapingLib) ∧
      EachLaterStep escapingLib busVariables twoSteps3
        (fun now i data => OffersBinary escapingLib now i data ↔
          data = [] ∨ ∃ size, now.sizes[i]? = some size ∧
            escapingLib.dseAscii85Decode
              (sizedText size (escapingLib.dseAscii85Encode data)) = data) ∧
      (LeavesSizes greetingFmu3 →
        EachLaterStep escapingLib busVariables twoSteps3
          (fun now i data => OffersBinary escapingLib now i data ↔ data = [])) := by
  have empty : escapingLib.dseAscii85Encode [] = ⟨[], List.not_mem_nil⟩ := by decide
  exact cosim_offers_iff decimal escapingLib pduCodecs busVariables 1 escapingLib_inverts empty
    hasCodecs_busVariables greetingFmu2 greetingFmu3 () () [] [] none 2

end DseFmi.Importer

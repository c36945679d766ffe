import TptTelemetry.Compiler.Rendering
import TptTelemetry.Daemon.Ingest

namespace TptTelemetry.Daemon.Interference

open TptTelemetry.Lib TptTelemetry.Lib.Text TptTelemetry.Lib.Utf8 TptTelemetry.Lib.Pattern
open TptTelemetry.Lib.Delimited TptTelemetry.Lib.Concurrency TptTelemetry.Lib.Simulation
open TptTelemetry.Dsl.Ast TptTelemetry.Compiler.Scalar TptTelemetry.Compiler.Compile
open TptTelemetry.Compiler.Matcher TptTelemetry.Compiler.Search TptTelemetry.Compiler.Exact
open TptTelemetry.Compiler.Typed TptTelemetry.Compiler.Redaction TptTelemetry.Compiler.Rendering
open TptTelemetry.Otlp.Exporter TptTelemetry.Daemon.Pipeline TptTelemetry.Daemon.Worker
open TptTelemetry.Daemon.Ingest

variable {C : Chrono} {cs : CompiledSchema}

section Lines

/-- Two texts of a capture that its redaction makes the same. -/
def Hidden (fmt : CompiledFormat) (name t t' : Str) : Prop :=
  t = t' ∨ ∃ mode, lastMode fmt.redactions name = some mode ∧ redactText mode t = redactText mode t'

variable {fmt : CompiledFormat} {ts ts' : List Str} {i : Nat} {n t : Str}

def AllHidden (fmt : CompiledFormat) (ts ts' : List Str) : Prop :=
  ∀ (i : Nat) (n t t' : Str), (captureNames fmt.segments)[i]? = some n → ts[i]? = some t →
    ts'[i]? = some t' → Hidden fmt n t t'

theorem rawOf_get (hn : (captureNames fmt.segments)[i]? = some n) (ht : ts[i]? = some t) :
    (rawOf fmt ts).fields[i]? = some ⟨n, t⟩ := by
  rw [rawOf, List.getElem?_zipWith, hn, ht]

theorem record_get {record : Record} (h : buildRecord C fmt (rawOf fmt ts) = .ok record)
    (hlen : ts.length = (captureNames fmt.segments).length)
    (hnodup : (captureNames fmt.segments).Nodup) (hn : (captureNames fmt.segments)[i]? = some n)
    (ht : ts[i]? = some t) :
    ∃ tf, record.fields[i]? = some tf ∧ tf.name = n ∧
      match lastMode fmt.redactions n with
      | some mode => ∃ text, redactText mode t = .ok text ∧ tf.value = .ownedString text
      | none => tf.value =
          coerceField C fmt n ((declaredType fmt.segments n).getD .string) t := by
  have hnames : (rawOf fmt ts).fields.map RawField.name = captureNames fmt.segments :=
    (zipWith_fields hlen).1
  have hfresh : n ∉ (captureNames fmt.segments).take i := by
    have hcount := List.count_eq_one_of_mem hnodup (List.mem_of_getElem? hn)
    exact count_le_one_iff.mp hcount.le i hn
  have hi := rawOf_get hn ht
  obtain ⟨-, hget⟩ := buildRecord_get h
  obtain ⟨tf, tf', htf, hname, -, hi', hname', hval⟩ := hget i _ hi
  have hfirst : firstText (rawOf fmt ts) n = t := firstText_eq hi (by rwa [hnames])
  rw [typedFields, List.getElem?_map, hi, Option.map_some] at htf
  cases htf
  refine ⟨tf', hi', hname', ?_⟩
  simp only [hnames, modeAt, hfresh, if_false] at hval
  cases hl : lastMode fmt.redactions n with
  | some mode =>
    simp only [hl, hfirst] at hval
    exact hval
  | none =>
    simp only [hl] at hval
    exact hval

theorem buildRecord_hidden {record record' : Record}
    (hlen : ts.length = (captureNames fmt.segments).length)
    (hlen' : ts'.length = (captureNames fmt.segments).length)
    (hnodup : (captureNames fmt.segments).Nodup) (hhidden : AllHidden fmt ts ts')
    (h : buildRecord C fmt (rawOf fmt ts) = .ok record)
    (h' : buildRecord C fmt (rawOf fmt ts') = .ok record') : record = record' := by
  have hfields : record.fields = record'.fields := by
    have hl := (buildRecord_get h).1
    have hl' := (buildRecord_get h').1
    have hraw : (rawOf fmt ts).fields.length = (captureNames fmt.segments).length := by
      rw [rawOf, List.length_zipWith, hlen, Nat.min_self]
    have hraw' : (rawOf fmt ts').fields.length = (captureNames fmt.segments).length := by
      rw [rawOf, List.length_zipWith, hlen', Nat.min_self]
    refine List.ext_getElem? fun i => ?_
    by_cases hi : i < (captureNames fmt.segments).length
    · have hn := List.getElem?_eq_getElem hi
      have ht := List.getElem?_eq_getElem (hlen.symm ▸ hi)
      have ht' := List.getElem?_eq_getElem (hlen'.symm ▸ hi)
      obtain ⟨tf, hget, hname, hval⟩ := record_get h hlen hnodup hn ht
      obtain ⟨tf', hget', hname', hval'⟩ := record_get h' hlen' hnodup hn ht'
      have hvalue : tf.value = tf'.value := by
        obtain heq | ⟨mode, hmode, heq⟩ := hhidden i _ _ _ hn ht ht'
        · rw [← heq] at hval'
          split at hval
          · next mode hmode =>
            simp only [hmode] at hval'
            obtain ⟨text, hr, hv⟩ := hval
            obtain ⟨text', hr', hv'⟩ := hval'
            cases hr.symm.trans hr'
            rw [hv, hv']
          · next hmode =>
            simp only [hmode] at hval'
            rw [hval, hval']
        · simp only [hmode] at hval hval'
          obtain ⟨text, hr, hv⟩ := hval
          obtain ⟨text', hr', hv'⟩ := hval'
          rw [heq, hr'] at hr
          cases hr
          rw [hv, hv']
      rw [hget, hget']
      cases tf
      cases tf'
      simp_all
    · rw [List.getElem?_eq_none (by omega), List.getElem?_eq_none (by omega)]
  have hformat := (buildRecord_names h).1
  have hformat' := (buildRecord_names h').1
  cases record
  cases record'
  simp_all [rawOf]

/-- Two lines of one format that differ only in what the format redacts. -/
inductive Alike (C : Chrono) (cs : CompiledSchema) : Str → Str → Prop
  | hidden {fmt : CompiledFormat} {sep : Char → Bool} {ts ts' : List Str} {line line' : Str}
    (hmem : fmt ∈ cs.formats) (hclosed : Closed sep (parts C fmt.segments))
    (hnodup : (captureNames fmt.segments).Nodup) (hfree : Free sep ts) (hfree' : Free sep ts')
    (hfits : Fits (parts C fmt.segments) ts line) (hfits' : Fits (parts C fmt.segments) ts' line')
    (hascii : Ascii line) (hascii' : Ascii line')
    (hhidden : AllHidden fmt ts ts') : Alike C cs line line'

theorem parseLine_alike {line line' : Str} (happart : cs.formats.Pairwise Apart)
    (h : Alike C cs line line') :
    Compiler.Typed.parseLine C cs line = Compiler.Typed.parseLine C cs line' := by
  obtain ⟨hmem, hclosed, hnodup, hfree, hfree', hfits, hfits', hascii, hascii', hhidden⟩ := h
  obtain ⟨record, hbuild, hparse⟩ := parseLine_rendered happart hmem hclosed hfree hfits hascii
  obtain ⟨record', hbuild', hparse'⟩ :=
    parseLine_rendered happart hmem hclosed hfree' hfits' hascii'
  have hrecord := buildRecord_hidden (length_captureNames hfits) (length_captureNames hfits') hnodup
    hhidden hbuild hbuild'
  rw [hparse, hparse', hrecord]

end Lines

section Runs

variable {outcome : Nat → Record → Bool} {s s' t : State} {m m' : Message} {e e' : Pipeline.Event}

/-- Two messages that the parser makes the same of. -/
def SameMessage (C : Chrono) (cs : CompiledSchema) (m m' : Message) : Prop :=
  parseText C cs m = parseText C cs m'

inductive SameWorker (C : Chrono) (cs : CompiledSchema) : Worker → Worker → Prop
  | loop : SameWorker C cs .loop .loop
  | polling : SameWorker C cs .polling .polling
  | got {m m' : Message} (h : SameMessage C cs m m') : SameWorker C cs (.got m) (.got m')
  | counted {m m' : Message} (h : SameMessage C cs m m') : SameWorker C cs (.counted m) (.counted m')
  | exporting (m m' : Message) (rec : Record) : SameWorker C cs (.exporting m rec) (.exporting m' rec)
  | exportDone (m m' : Message) (ok : Bool) : SameWorker C cs (.exportDone m ok) (.exportDone m' ok)
  | finished : SameWorker C cs .finished .finished
  | panicked (m m' : Message) : SameWorker C cs (.panicked m) (.panicked m')

/-- Two states that differ only in what the parser does not see. -/
structure Same (C : Chrono) (cs : CompiledSchema) (s s' : State) : Prop where
  ring : s.ring.Related (SameMessage C cs) s'.ring
  senders : s.senders = s'.senders
  pending : s.pending = s'.pending
  delivered : s.delivered = s'.delivered
  droppedFull : s.droppedFull = s'.droppedFull
  droppedDisconnected : s.droppedDisconnected = s'.droppedDisconnected
  stop : s.stop = s'.stop
  worker : SameWorker C cs s.worker s'.worker
  received : s.received = s'.received
  exported : s.exported = s'.exported
  errors : s.errors = s'.errors

inductive SameEvent (C : Chrono) (cs : CompiledSchema) : Pipeline.Event → Pipeline.Event → Prop
  | same (e : Pipeline.Event) : SameEvent C cs e e
  | trySend {m m' : Message} (h : SameMessage C cs m m') :
    SameEvent C cs (.trySend m) (.trySend m')

theorem same_init (ringCapacity : Nat) : Same C cs (State.init ringCapacity) (State.init ringCapacity) :=
  ⟨⟨.nil, rfl, rfl⟩, rfl, rfl, rfl, rfl, rfl, rfl, .loop, rfl, rfl, rfl⟩

theorem same_move {w w' : Worker} (hs : Same C cs s s') (hw : SameWorker C cs w w') :
    Same C cs { s with worker := w } { s' with worker := w' } :=
  ⟨hs.1, hs.2, hs.3, hs.4, hs.5, hs.6, hs.7, hw, hs.9, hs.10, hs.11⟩

theorem same_trySend (hs : Same C cs s s') (hm : SameMessage C cs m m')
    (h : step C cs s (.trySend m) = some t) :
    ∃ t', step C cs s' (.trySend m') = some t' ∧ Same C cs t t' := by
  obtain ⟨hring, hsenders, hpending, hdel, hfull, hgone, hstop, hw, hrec, hexp, herr⟩ := hs
  obtain ⟨hres, hring'⟩ := hring.trySend hm
  simp only [step] at h ⊢
  split at h <;> cases h
  next hopen =>
  rw [if_pos (hsenders ▸ hopen)]
  exact ⟨_, rfl, hring', hsenders, by rw [hres, hpending], hdel, hfull, hgone, hstop, hw, hrec, hexp, herr⟩

theorem same_countSend {result : SendResult} (hs : Same C cs s s')
    (h : step C cs s (.countSend result) = some t) :
    ∃ t', step C cs s' (.countSend result) = some t' ∧ Same C cs t t' := by
  obtain ⟨hring, hsenders, hpending, hdel, hfull, hgone, hstop, hw, hrec, hexp, herr⟩ := hs
  simp only [step] at h ⊢
  split at h <;> cases h
  next hmem =>
  rw [if_pos (hpending ▸ hmem)]
  refine ⟨_, rfl, ?_⟩
  cases result with
  | ok =>
    exact ⟨hring, hsenders, congrArg (·.erase .ok) hpending, congrArg (· + 1) hdel, hfull, hgone, hstop,
      hw, hrec, hexp, herr⟩
  | full =>
    exact ⟨hring, hsenders, congrArg (·.erase .full) hpending, hdel, congrArg (· + 1) hfull, hgone,
      hstop, hw, hrec, hexp, herr⟩
  | disconnected =>
    exact ⟨hring, hsenders, congrArg (·.erase .disconnected) hpending, hdel, hfull,
      congrArg (· + 1) hgone, hstop, hw, hrec, hexp, herr⟩

theorem same_recv (hs : Same C cs s s') (h : step C cs s .recv = some t) :
    ∃ t', step C cs s' .recv = some t' ∧ Same C cs t t' := by
  have hw := hs.worker
  simp only [step] at h ⊢
  split at h <;> cases h
  next m ring hv hr =>
  obtain ⟨m', ring', hr', hm, hring⟩ := hs.ring.recv hr
  rw [hv] at hw
  generalize hv' : s'.worker = w at hw
  cases hw
  simp only [hr']
  exact ⟨_, rfl, hring, hs.2, hs.3, hs.4, hs.5, hs.6, hs.7, .got hm, hs.9, hs.10, hs.11⟩

theorem same_parseLine (hs : Same C cs s s') (h : step C cs s .parseLine = some t) :
    ∃ t', step C cs s' .parseLine = some t' ∧ Same C cs t t' := by
  have hw := hs.worker
  simp only [step] at h ⊢
  generalize s.worker = v at hw h
  generalize s'.worker = v' at hw ⊢
  cases hw with
  | counted hm =>
    rw [SameMessage] at hm
    simp only [← hm] at h ⊢
    split at h <;> cases h
    · exact ⟨_, rfl, same_move hs (.panicked _ _)⟩
    · exact ⟨_, rfl, hs.1, hs.2, hs.3, hs.4, hs.5, hs.6, hs.7, .loop, hs.9, hs.10, hs.11⟩
    · exact ⟨_, rfl, same_move hs (.exporting _ _ _)⟩
  | _ => cases h

theorem same_countExport (hs : Same C cs s s') (h : step C cs s .countExport = some t) :
    ∃ t', step C cs s' .countExport = some t' ∧ Same C cs t t' := by
  have hw := hs.worker
  simp only [step] at h ⊢
  generalize s.worker = v at hw h
  generalize s'.worker = v' at hw ⊢
  cases hw with
  | exportDone m m' ok =>
    cases ok <;> cases h
    · exact ⟨_, rfl, hs.1, hs.2, hs.3, hs.4, hs.5, hs.6, hs.7, .loop, hs.9, hs.10,
        congrArg (· + 1) hs.errors⟩
    · exact ⟨_, rfl, hs.1, hs.2, hs.3, hs.4, hs.5, hs.6, hs.7, .loop, hs.9,
        congrArg (· + 1) hs.exported, hs.11⟩
  | _ => cases h

theorem same_step (hs : Same C cs s s') (he : SameEvent C cs e e') (h : step C cs s e = some t) :
    ∃ t', step C cs s' e' = some t' ∧ Same C cs t t' := by
  cases he with
  | trySend hm => exact same_trySend hs hm h
  | same =>
    have hw := hs.worker
    cases e with
    | trySend m => exact same_trySend hs rfl h
    | countSend result => exact same_countSend hs h
    | recv => exact same_recv hs h
    | parseLine => exact same_parseLine hs h
    | countExport => exact same_countExport hs h
    | dropSenders =>
      simp only [step] at h ⊢
      split at h <;> cases h
      next hp =>
      rw [if_pos (hs.pending ▸ hp)]
      exact ⟨_, rfl, hs.1, rfl, hs.3, hs.4, hs.5, hs.6, hs.7, hs.8, hs.9, hs.10, hs.11⟩
    | requestStop =>
      cases h
      exact ⟨_, rfl, hs.1, hs.2, hs.3, hs.4, hs.5, hs.6, rfl, hs.8, hs.9, hs.10, hs.11⟩
    | loadStop =>
      simp only [step] at h ⊢
      generalize s.worker = v at hw h
      generalize s'.worker = v' at hw ⊢
      cases hw with
      | loop =>
        cases h
        refine ⟨_, rfl, same_move hs ?_⟩
        rw [← hs.stop]
        cases s.stop
        · exact .polling
        · exact .finished
      | _ => cases h
    | timeout =>
      simp only [step] at h ⊢
      generalize s.worker = v at hw h
      generalize s'.worker = v' at hw ⊢
      cases hw with
      | polling =>
        cases h
        exact ⟨_, rfl, same_move hs .loop⟩
      | _ => cases h
    | disconnected =>
      simp only [step] at h ⊢
      generalize s.worker = v at hw h
      generalize s'.worker = v' at hw ⊢
      cases hw with
      | polling =>
        have hq := hs.ring.queue
        simp only at h ⊢
        split at h <;> cases h
        next hend =>
        rw [hend.2] at hq
        rw [if_pos ⟨hs.senders ▸ hend.1, List.forall₂_nil_left_iff.mp hq⟩]
        exact ⟨_, rfl, same_move hs .finished⟩
      | _ => cases h
    | countReceived =>
      simp only [step] at h ⊢
      generalize s.worker = v at hw h
      generalize s'.worker = v' at hw ⊢
      cases hw with
      | got hm =>
        cases h
        exact ⟨_, rfl, hs.1, hs.2, hs.3, hs.4, hs.5, hs.6, hs.7, .counted hm,
          congrArg (· + 1) hs.received, hs.10, hs.11⟩
      | _ => cases h
    | exportDone ok =>
      simp only [step] at h ⊢
      generalize s.worker = v at hw h
      generalize s'.worker = v' at hw ⊢
      cases hw with
      | exporting m m' rec =>
        cases h
        exact ⟨_, rfl, same_move hs (.exportDone m m' ok)⟩
      | _ => cases h
    | dropServer =>
      simp only [step] at h ⊢
      generalize s.worker = v at hw h
      generalize s'.worker = v' at hw ⊢
      cases hw with
      | finished =>
        cases h
        exact ⟨_, rfl, hs.ring.dropReceiver, hs.2, hs.3, hs.4, hs.5, hs.6, hs.7, .finished, hs.9, hs.10,
          hs.11⟩
      | panicked m m' =>
        cases h
        exact ⟨_, rfl, hs.ring.dropReceiver, hs.2, hs.3, hs.4, hs.5, hs.6, hs.7, .panicked m m', hs.9,
          hs.10, hs.11⟩
      | _ => cases h

theorem same_daemonStep (hs : Same C cs s s') (he : SameEvent C cs e e')
    (h : daemonStep C cs outcome s e = some t) :
    ∃ t', daemonStep C cs outcome s' e' = some t' ∧ Same C cs t t' ∧
      calls C cs s e = calls C cs s' e' := by
  obtain ⟨t', ht', hsame⟩ := same_step hs he (step_of_daemonStep h)
  have hw := hs.worker
  cases he with
  | trySend hm => exact ⟨t', ht', hsame, rfl⟩
  | same =>
    cases e with
    | exportDone ok =>
      obtain ⟨m, rec, hv, hok, -⟩ := daemonStep_exportDone h
      rw [hv] at hw
      generalize hv' : s'.worker = v' at hw
      cases hw with
      | exporting _ m' =>
        refine ⟨t', ?_, hsame, rfl⟩
        rw [hs.exported, hs.errors] at hok
        simp only [daemonStep, hv', if_pos hok]
        exact ht'
    | parseLine =>
      refine ⟨t', ht', hsame, ?_⟩
      simp only [calls]
      generalize s.worker = v at hw
      generalize s'.worker = v' at hw
      cases hw with
      | counted hm =>
        rw [SameMessage] at hm
        simp only [recordOf, hm]
      | _ => rfl
    | _ => exact ⟨t', ht', hsame, rfl⟩

end Runs

/-- The same run, with other lines that differ only in what is redacted. -/
inductive AlikeEvent (C : Chrono) (cs : CompiledSchema) : Pipeline.Event → Pipeline.Event → Prop
  | same (e : Pipeline.Event) : AlikeEvent C cs e e
  | trySend {line line' : Str} (h : Alike C cs line line') :
    AlikeEvent C cs (.trySend ⟨encode line⟩) (.trySend ⟨encode line'⟩)

theorem sameEvent_of_alike {e e' : Pipeline.Event} (happart : cs.formats.Pairwise Apart)
    (h : AlikeEvent C cs e e') : SameEvent C cs e e' := by
  cases h with
  | same => exact .same e
  | trySend h =>
    refine .trySend ?_
    rw [SameMessage, parseText, parseText, fromUtf8Lossy_encode, fromUtf8Lossy_encode]
    exact parseLine_alike happart h

/-- Redacted text does not leave the daemon. If the lines of a run are changed in
what their formats redact, the daemon can take the very same steps, and sends
the same payloads; its counters are the same too. -/
theorem redacted_stays {ringCapacity : Nat} {events events' : List Pipeline.Event} {s : State}
    (cfg : ExporterConfig) (envs : Nat → Env) (happart : cs.formats.Pairwise Apart)
    (he : List.Forall₂ (AlikeEvent C cs) events events')
    (h : run (daemonStep C cs (succeeds cfg envs)) (State.init ringCapacity) events = some s) :
    ∃ s', run (daemonStep C cs (succeeds cfg envs)) (State.init ringCapacity) events' = some s' ∧
      attempted cfg envs
          (trace (daemonStep C cs (succeeds cfg envs)) (calls C cs) (State.init ringCapacity) events) =
        attempted cfg envs
          (trace (daemonStep C cs (succeeds cfg envs)) (calls C cs) (State.init ringCapacity) events') ∧
      s.received = s'.received ∧ s.exported = s'.exported ∧ s.errors = s'.errors ∧
      s.delivered = s'.delivered ∧ s.droppedFull = s'.droppedFull ∧
      s.droppedDisconnected = s'.droppedDisconnected ∧
      s.ring.queue.length = s'.ring.queue.length := by
  have hstep : ∀ {s s' : State} {e e' : Pipeline.Event} {t : State}, Same C cs s s' →
      SameEvent C cs e e' → daemonStep C cs (succeeds cfg envs) s e = some t →
      ∃ t', daemonStep C cs (succeeds cfg envs) s' e' = some t' ∧ Same C cs t t' ∧
        calls C cs s e = calls C cs s' e' := same_daemonStep
  obtain ⟨s', hrun, hsame, htrace⟩ := run_indistinguishable hstep
    (he.imp fun _ _ => sameEvent_of_alike happart) (same_init ringCapacity) h
  exact ⟨s', hrun, congrArg _ htrace, hsame.received, hsame.exported, hsame.errors, hsame.delivered,
    hsame.droppedFull, hsame.droppedDisconnected, hsame.ring.queue.length_eq⟩

/-- The format `PIN %{pin:string}` with `redact pin mask`. -/
def pin : CompiledFormat :=
  ⟨"Pin".toList, [.literal "PIN ".toList, .capture "pin".toList .string], [], [("pin".toList, .mask)]⟩

def pinLine (line : Str) : List Pipeline.Event :=
  [.trySend ⟨encode line⟩, .countSend .ok, .loadStop, .recv, .countReceived, .parseLine,
    .exportDone true, .countExport]

def afterPinLine (line : Str) : State :=
  ⟨syncChannel 1, true, 0, 1, 0, 0, false, .loop, 1, 1, 0, 1, [⟨encode line⟩], [⟨encode line⟩], []⟩

theorem alike_pin : Alike noTimestamps ⟨[pin]⟩ "PIN 1234".toList "PIN 9934".toList := by
  have hfits : ∀ t : Str, Fits (Compiler.Search.parts noTimestamps pin.segments) [t]
      ("PIN ".toList ++ t) := fun t =>
    ⟨.cons (Scalar.string t).accepts .nil, congrArg ("PIN ".toList ++ ·) (List.append_nil t)⟩
  have hmem : pin ∈ [pin] := List.mem_singleton.mpr rfl
  have hclosed : Closed (fun _ => false) (Compiler.Search.parts noTimestamps pin.segments) :=
    ⟨trivial, trivial⟩
  refine .hidden hmem hclosed (by decide) (by simp [Free]) (by simp [Free]) (hfits "1234".toList)
    (hfits "9934".toList) (by decide) (by decide) ?_
  intro i n t t' hn ht ht'
  cases i with
  | zero =>
    cases hn
    cases ht
    cases ht'
    exact Or.inr ⟨.mask, rfl, rfl⟩
  | succ i => cases hn

theorem redacted_stays_pin : ∃ s', run
    (daemonStep noTimestamps ⟨[pin]⟩ (succeeds .default (fun _ => willing))) (State.init 0)
      (pinLine "PIN 9934".toList) = some s' ∧
    attempted .default (fun _ => willing) (trace
        (daemonStep noTimestamps ⟨[pin]⟩ (succeeds .default (fun _ => willing)))
        (calls noTimestamps ⟨[pin]⟩) (State.init 0) (pinLine "PIN 1234".toList)) =
      attempted .default (fun _ => willing) (trace
        (daemonStep noTimestamps ⟨[pin]⟩ (succeeds .default (fun _ => willing)))
        (calls noTimestamps ⟨[pin]⟩) (State.init 0) (pinLine "PIN 9934".toList)) ∧ s'.exported = 1 := by
  have hrun : run (daemonStep noTimestamps ⟨[pin]⟩ (succeeds .default (fun _ => willing)))
      (State.init 0) (pinLine "PIN 1234".toList) = some (afterPinLine "PIN 1234".toList) := by
    rw [succeeds_willing]
    decide +kernel
  have hevents : List.Forall₂ (AlikeEvent noTimestamps ⟨[pin]⟩) (pinLine "PIN 1234".toList)
      (pinLine "PIN 9934".toList) :=
    .cons (.trySend alike_pin) (List.forall₂_same.mpr fun e _ => .same e)
  obtain ⟨s', hs', htrace, -, hexp, -⟩ := redacted_stays .default (fun _ => willing)
    (List.pairwise_singleton _ _) hevents hrun
  exact ⟨s', hs', htrace, hexp.symm⟩

end TptTelemetry.Daemon.Interference

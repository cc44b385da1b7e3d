import PikeAnalysis.Proofs.Simulation.Independence

/-!
# Changes are left to settle

A document that is only ever changed is validated when nothing has been heard of it for the quiet
time: not before that much has passed since its last change and since the validation before, and
then at once (`validations_wait_for_quiet`).  So a burst of changes leads to one validation, of the
last of them.

A `Timely` course is one in which no time passes while something can still be done; within an
instant edits may come at any point, also between two things that are done.  What a course says of a
document is taken down in a list of entries, and what those come to (`Account`) determines when the
next validation is started, and of what.

A validation is started by the scheduler, which from then on has a run for the document, and begins
in the first turn of that run's task.  Both are in the same instant, but a change may come in
between.  It is then a change during the validation: that is still of what the document was when it
was started, and another one follows.

Nothing is said of how long validations take, of other documents, or of how the loop orders what it
does within an instant.  The premise is only that time does not pass while something can be done,
which is what a clock that is slower than the machine comes to.  The entries are taken down from the
rehearsal itself (`since`): changes as they are made, starts as the scheduler gets a run for the
document, begins and ends as validations report them.

The proof has three parts.  First, entries are given a meaning by themselves: `Account` sums up what
they come to, `Account.Due` says when a validation is to be started, and `Paced` that every start is
just then.  Second, what is known of the document's track at a moment agrees with the account
(`Befits`), whatever is done next (`Chronicled.next`) and while the clock moves
(`Chronicled.clock`).  Third, a burst is followed change by change (`Paced.midst`): as each change
comes before the quiet time is over, no start is due within the burst but for the last change.

That a course comes to an end within an instant (`OnTime.settles`) is part of the claim, since
without it the statement about what is overdue could be true of no moment at all.
-/

namespace PikeAnalysis.Simulation.Scheduling

open PikeAnalysis.Concurrency
open PikeAnalysis.Scheduler (Doc Sequel)
open Function (update)

/-! ## Accounts -/

/-- A document is changed, a validation of it is started, or one begins or ends.  What an editor
does and what the scheduler does are taken down in one list, so that delays can be read off as
differences between neighbouring entries. -/
inductive Entry where
  | changed (t : Instant) (version : Int) (text : String)
  | started (t : Instant) (version : Int) (text : String)
  | marked (mark : Mark)
  deriving DecidableEq

def Mark.time : Mark → Instant
  | .began t _ _ | .ended t _ => t

def Entry.time : Entry → Instant
  | .changed t _ _ | .started t _ _ => t
  | .marked mark => mark.time

/-- The start of a validation: when, and of which version and text. -/
def Entry.start? : Entry → Option (Instant × Int × String)
  | .started t version text => some (t, version, text)
  | _ => none

/-- How far the validation of a document has come that has not ended, if there is one: it has been
started at a time, with a version and text, or it has begun, with a version. -/
inductive Progress where
  | none
  | started (t : Instant) (version : Int) (text : String)
  | begun (version : Int)

/-- What entries about a document come to: its last change, when the last validation ended, whether
a change came since the last validation was started, and how far that has come. -/
structure Account where
  change : Option (Instant × Int × String) := none
  ended : Option Instant := none
  pending : Bool := false
  progress : Progress := .none

def Account.add (a : Account) : Entry → Account
  | .changed t version text => { a with change := some (t, version, text), pending := true }
  | .started t version text => { a with pending := false, progress := .started t version text }
  | .marked (.began _ version _) => { a with progress := .begun version }
  | .marked (.ended t _) => { a with ended := some t, progress := .none }

def account (entries : List Entry) : Account :=
  entries.foldl Account.add {}

@[simp] theorem account_nil : account [] = {} := rfl

@[simp] theorem account_concat (entries : List Entry) (e : Entry) :
    account (entries ++ [e]) = (account entries).add e := by
  rw [account, List.foldl_append]
  rfl

/-- A validation is to be started at a time: a change came since the last one was started, none is
left that has not ended, and so much time has passed since the last change and since the last
validation ended.  With the text that it is to be of; there is one such time at most, which makes
the start exact rather than bounded. -/
structure Account.Due (a : Account) (quiet : Int) (t : Instant) (version : Int) (text : String) :
    Prop where
  pending : a.pending = true
  free : a.progress = .none
  settled : ∃ changed, a.change = some (changed, version, text) ∧
    t = a.ended.elim changed (max changed) + quiet

variable {quiet : Int} {a : Account} {t now now' : Instant} {version : Int} {text : String}
  {entries : List Entry} {e : Entry}

/-- A validation is to be started at one time only. -/
theorem Account.Due.unique {t' : Instant} {version' : Int} {text' : String}
    (h : a.Due quiet t version text)
    (h' : a.Due quiet t' version' text') : t = t' ∧ version = version' ∧ text = text' := by
  obtain ⟨changed, hchange, rfl⟩ := h.settled
  obtain ⟨changed', hchange', rfl⟩ := h'.settled
  cases hchange.symm.trans hchange'
  exact ⟨rfl, rfl, rfl⟩

/-! ## Chronicles -/

/-- Something holds of every entry, given those before it. -/
def Throughout (p : List Entry → Entry → Prop) (entries : List Entry) : Prop :=
  ∀ before e after, entries = before ++ e :: after → p before e

@[simp] theorem throughout_nil (p : List Entry → Entry → Prop) : Throughout p [] := by
  intro before e after split
  simp at split

@[simp] theorem throughout_concat {p : List Entry → Entry → Prop} :
    Throughout p (entries ++ [e]) ↔ Throughout p entries ∧ p entries e := by
  constructor
  · intro h
    refine ⟨fun before e' after split => ?_, h entries e [] rfl⟩
    exact h before e' (after ++ [e]) (by rw [split, List.append_assoc, List.cons_append])
  · rintro ⟨h, hlast⟩ before e' after split
    rcases List.eq_nil_or_concat after with rfl | ⟨rest, last, rfl⟩
    · obtain ⟨rfl, same⟩ := List.append_inj' split rfl
      exact List.singleton_inj.1 same ▸ hlast
    · rw [List.concat_eq_append, ← List.cons_append, ← List.append_assoc] at split
      exact h before e' rest (List.append_inj' split rfl).1

/-- What there may be next, given what the entries before it come to: a validation is started when
it is to be, begins in the same instant with the version and text that it was started with, and ends
after that. -/
def Entry.InTime (quiet : Int) (a : Account) : Entry → Prop
  | .changed .. => True
  | .started t version text => a.Due quiet t version text
  | .marked (.began t version text) => a.progress = .started t version text
  | .marked (.ended _ version) => a.progress = .begun version

/-- Every validation is started when it is to be, and then begins and ends.  The condition on an
entry refers to what the entries before it come to, and to nothing else. -/
def Paced (quiet : Int) : List Entry → Prop :=
  Throughout fun before e => e.InTime quiet (account before)

/-- Entries up to now, in their order.  `paced` is what is to be shown of the delays; the others are
what carries it from entry to entry, as a new entry is compared with the last change and the
last end. -/
structure Chronicle (quiet : Int) (now : Instant) (entries : List Entry) : Prop where
  paced : Paced quiet entries
  ordered : entries.Pairwise (·.time ≤ ·.time)
  past : ∀ e ∈ entries, e.time ≤ now
  changed : ∀ c, (account entries).change = some c → c.1 ≤ now
  ended : ∀ t, (account entries).ended = some t → t ≤ now

theorem Chronicle.nil (quiet : Int) (now : Instant) : Chronicle quiet now [] where
  paced := throughout_nil _
  ordered := .nil
  past := nofun
  changed := nofun
  ended := nofun

theorem Chronicle.later (h : Chronicle quiet now entries) (le : now ≤ now') :
    Chronicle quiet now' entries :=
  { h with
    past := fun e he => (h.past e he).trans le
    changed := fun c hc => (h.changed c hc).trans le
    ended := fun t ht => (h.ended t ht).trans le }

/-- Something is taken down as it happens. -/
theorem Chronicle.concat (h : Chronicle quiet now entries) (time : e.time = now)
    (begins : e.InTime quiet (account entries)) : Chronicle quiet now (entries ++ [e]) where
  paced := throughout_concat.2 ⟨h.paced, begins⟩
  ordered := List.pairwise_append.2 ⟨h.ordered, List.pairwise_singleton _ _, fun x hx y hy => by
    rw [List.mem_singleton.1 hy, time]
    exact h.past x hx⟩
  past x hx := by
    rcases List.mem_append.1 hx with hx | hx
    · exact h.past x hx
    · rw [List.mem_singleton.1 hx, time]
  changed c hc := by
    rw [account_concat] at hc
    cases e with
    | changed t version text =>
      cases hc
      exact time.le
    | started => exact h.changed c hc
    | marked mark => cases mark <;> exact h.changed c hc
  ended t ht := by
    rw [account_concat] at ht
    cases e with
    | changed | started => exact h.ended t ht
    | marked mark =>
      cases mark with
      | began => exact h.ended t ht
      | ended =>
        cases ht
        exact time.le

/-! ## Documents that are only changed -/

/-- How a document stands that has only been changed, by what its entries come to: it is absent or
rests, it waits for a timer that is due when a validation is, or it has a run that is about to begin
or has begun. -/
inductive Befits (quiet : Int) (now : Instant) (a : Account) : Doc Stage → Prop
  | absent (settled : a.pending = false) (free : a.progress = .none) : Befits quiet now a .absent
  | resting {version : Int} {text : String} (settled : a.pending = false)
    (free : a.progress = .none) :
    Befits quiet now a (.resting version text)
  | waiting {version : Int} {text : String} {t : Instant} (due : a.Due quiet t version text)
    (early : now ≤ t) : Befits quiet now a (.waiting version text (.until (some t)))
  /-- Its timer has fired in this instant. -/
  | starting {version : Int} {text : String} {subject : Int × String} {changed : Instant}
    (started : a.progress = .started now subject.1 subject.2)
    (change : a.change = some (changed, version, text)) :
    Befits quiet now a (.running version text subject (if a.pending then .wait else .rest) .ahead)
  | running {version : Int} {text : String} {subject : Int × String} {changed : Instant}
    {stop : Option Instant} (begun : a.progress = .begun subject.1)
    (change : a.change = some (changed, version, text)) :
    Befits quiet now a
      (.running version text subject (if a.pending then .wait else .rest) (.until stop))

/-- The entries about a document, and how it stands.  The document has to befit what was taken down:
the timer it waits for is due a quiet period after the last change, or after the end of the run
during which the change came. -/
structure Chronicled (quiet : Int) (now : Instant) (entries : List Entry) (d : Doc Stage) :
    Prop where
  chronicle : Chronicle quiet now entries
  befits : Befits quiet now (account entries) d

variable {d : Doc Stage} {k k' : Track} {lasts : Lengths}

/-- When a change comes now and no validation is under way, the next one is due after the quiet
time. -/
theorem Chronicle.due_of_changed (h : Chronicle quiet now entries)
    (free : (account entries).progress = .none) (version : Int) (text : String) :
    (account (entries ++ [.changed now version text])).Due quiet (now + quiet) version text := by
  rw [account_concat]
  refine ⟨rfl, free, now, rfl, ?_⟩
  change _ = (account entries).ended.elim now (max now) + quiet
  cases hended : (account entries).ended with
  | none => rfl
  | some t => rw [Option.elim_some, Int.max_eq_left (h.ended t hended)]

/-- When a validation ends during which a change came, the next one is due after the quiet time. -/
theorem Chronicle.due_of_ended (h : Chronicle quiet now entries) {changed : Instant}
    (pending : (account entries).pending = true)
    (change : (account entries).change = some (changed, version, text)) (subject : Int) :
    (account (entries ++ [.marked (.ended now subject)])).Due quiet (now + quiet) version text := by
  rw [account_concat]
  refine ⟨pending, rfl, changed, change, ?_⟩
  change _ = max changed now + quiet
  rw [Int.max_eq_right (h.changed _ change)]

/-- A change during a validation is left for the next one. -/
theorem sequel_changed (pending : Bool) :
    (if pending then Sequel.wait else .rest).changed = .wait := by
  cases pending <;> rfl

/-- A change comes, whatever the document is about.  The time that it waits for begins anew. -/
theorem Chronicled.changed (h : Chronicled quiet now entries d) (nonneg : 0 ≤ quiet) (version : Int)
    (text : String) :
    Chronicled quiet now (entries ++ [.changed now version text])
      (d.changed version text (.until (some (now + quiet)))) := by
  obtain ⟨chronicle, befits⟩ := h
  refine ⟨chronicle.concat rfl trivial, ?_⟩
  have later : now ≤ now + quiet := Int.le_add_of_nonneg_right nonneg
  cases befits with
  | absent _ free | resting _ free =>
    exact .waiting (chronicle.due_of_changed free version text) later
  | waiting due => exact .waiting (chronicle.due_of_changed due.free version text) later
  | starting started =>
    rw [Doc.changed, sequel_changed, account_concat]
    exact .starting (a := (account entries).add (.changed now version text)) started rfl
  | running begun =>
    rw [Doc.changed, sequel_changed, account_concat]
    exact .running (a := (account entries).add (.changed now version text)) begun rfl

/-- A validation is started because its time has come. -/
theorem Chronicled.started {stage : Stage}
    (h : Chronicled quiet now entries (.waiting version text stage))
    (past : stage.Over now) :
    Chronicled quiet now (entries ++ [.started now version text]) (.begin version text .ahead) := by
  obtain ⟨chronicle, befits⟩ := h
  cases befits with
  | waiting due early =>
    obtain ⟨t, same, reached⟩ := past
    cases same
    obtain rfl := Int.le_antisymm early reached
    obtain ⟨changed, change, -⟩ := due.settled
    refine ⟨chronicle.concat rfl due, ?_⟩
    rw [account_concat]
    have started : Befits quiet now ((account entries).add (.started now version text))
        (.running version text (version, text) .rest .ahead) := .starting rfl change
    exact started

/-- A validation begins. -/
theorem Chronicled.began {subject : Int × String} {sequel : Sequel} (stop : Option Instant)
    (h : Chronicled quiet now entries (.running version text subject sequel .ahead)) :
    Chronicled quiet now (entries ++ [.marked (.began now subject.1 subject.2)])
      (.running version text subject sequel (.until stop)) := by
  obtain ⟨chronicle, befits⟩ := h
  cases befits with
  | starting started change =>
    refine ⟨chronicle.concat rfl started, ?_⟩
    rw [account_concat]
    exact .running (a := (account entries).add (.marked (.began now subject.1 subject.2)))
      rfl change

/-- A validation ends. -/
theorem Chronicled.ended {subject : Int × String} {sequel : Sequel} {stop : Option Instant}
    (h : Chronicled quiet now entries (.running version text subject sequel (.until stop)))
    (nonneg : 0 ≤ quiet) (stage : Stage) :
    Chronicled quiet now (entries ++ [.marked (.ended now subject.1)])
      ((Doc.running version text subject sequel stage).ended
        (.until (some (now + quiet))) .ahead) := by
  obtain ⟨chronicle, befits⟩ := h
  cases befits with
  | running begun change =>
    refine ⟨chronicle.concat rfl begun, ?_⟩
    cases pending : (account entries).pending with
    | true =>
      rw [if_pos rfl]
      exact .waiting (chronicle.due_of_ended pending change subject.1)
        (Int.le_add_of_nonneg_right nonneg)
    | false =>
      rw [if_neg Bool.false_ne_true, account_concat]
      exact .resting (a := (account entries).add (.marked (.ended now subject.1))) pending rfl

/-- What there is to take down of a document that has come from one point of its track to
another. -/
def news (now : Instant) (k k' : Track) : List Entry :=
  let starts := if k.doc.subject? = none then k'.doc.subject?.toList else []
  starts.map (fun subject => .started now subject.1 subject.2) ++
    (k'.marks.drop k.marks.length).map .marked

theorem news_of_subject {subject : Int × String} {marks new : List Mark}
    (busy : d.subject? = some subject)
    (d' : Doc Stage) : news now ⟨d, marks⟩ ⟨d', marks ++ new⟩ = new.map .marked := by
  rw [news, if_neg (by rw [busy]; nofun), List.drop_left]
  rfl

/-- Whatever becomes of a document next, it is taken down. -/
theorem Chronicled.next (h : Chronicled quiet now entries k.doc) (nonneg : 0 ≤ quiet)
    (next : Next lasts (some quiet) now k k') :
    Chronicled quiet now (entries ++ news now k k') k'.doc := by
  cases next with
  | @fires version text stage marks past =>
    have told : news now ⟨.waiting version text stage, marks⟩ ⟨.begin version text .ahead, marks⟩ =
        [.started now version text] := by
      rw [news, List.drop_length]
      rfl
    rw [told]
    exact h.started past
  | begins =>
    rw [news_of_subject rfl]
    exact h.began _
  | passes =>
    have both := (h.began none).ended nonneg .ahead
    rw [List.append_assoc, news_of_subject rfl]
    rwa [List.append_assoc] at both
  | ends =>
    rw [news_of_subject rfl]
    exact h.ended nonneg _

/-- Time passes while nothing becomes of a document. -/
theorem Chronicled.clock (h : Chronicled quiet now entries k.doc)
    (idle : k.Idle now) (le : now ≤ now')
    (until' : k.Until now') : Chronicled quiet now' entries k.doc := by
  obtain ⟨chronicle, befits⟩ := h
  refine ⟨chronicle.later le, ?_⟩
  generalize hd : k.doc = d at befits
  cases befits with
  | absent settled free => exact .absent settled free
  | resting settled free => exact .resting settled free
  | waiting due => exact .waiting due (until' _ (by rw [hd]; rfl))
  | starting => exact absurd trivial (idle .ahead (by rw [hd]; rfl))
  | running begun change => exact .running begun change

/-- While nothing becomes of a document no validation is overdue, and none is about to begin. -/
theorem Chronicled.not_overdue (h : Chronicled quiet now entries k.doc) (idle : k.Idle now) :
    (∀ t version text, (account entries).progress ≠ .started t version text) ∧
      ∀ t version text, (account entries).Due quiet t version text → now < t := by
  obtain ⟨chronicle, befits⟩ := h
  generalize hd : k.doc = d at befits
  cases befits with
  | absent settled free | resting settled free =>
    refine ⟨fun t version text started => ?_, fun t version text due => ?_⟩
    · cases free.symm.trans started
    · cases settled.symm.trans due.pending
  | @waiting version text t due =>
    refine ⟨fun t version text started => ?_, fun t' version' text' due' => ?_⟩
    · cases due.free.symm.trans started
    · obtain ⟨rfl, -⟩ := due.unique due'
      exact Int.not_le.1 fun past => idle (.until (some t)) (by rw [hd]; rfl) ⟨t, rfl, past⟩
  | starting => exact absurd trivial (idle .ahead (by rw [hd]; rfl))
  | running begun =>
    refine ⟨fun t version text started => ?_, fun t version text due => ?_⟩
    · cases begun.symm.trans started
    · cases begun.symm.trans due.free

/-! ## Timely courses -/

variable {uri : String} {m m₀ m' : Rehearsal} {queue queue' : List (Ready Nat)} {i : Ready Nat}
  {T T' : String → Track} {n n' : Nat} {c : Moment State Unit Unit Job Nat}

/-- What there is to take down of a document since a rehearsal was `m`: a run of it, if there was
none, and the begins and ends of validations. -/
def since (uri : String) (m m' : Rehearsal) : List Entry :=
  let starts := if m.state.machine.runsOf uri = [] then m'.state.machine.runsOf uri else []
  starts.map (fun e => .started m'.state.loop.now e.2.version e.2.text) ++
    ((m'.state.marksOf uri).drop (m.state.marksOf uri).length).map .marked

/-- What a rehearsal can come to in time, and the entries about a document that is only changed.
Rounds follow one another, and what is ready in one is done in its order.  Edits may come at any
point: of the document only changes, of others anything.  The clock is moved on when nothing can be
done, and no further than to when the next timer is due. -/
inductive Timely (uri : String) (m₀ : Rehearsal) :
    Moment State Unit Unit Job Nat → List Entry → Prop
  | start : Timely uri m₀ ⟨m₀, []⟩ []
  | change {m : Rehearsal} {queue : List (Ready Nat)} {entries : List Entry}
    (version : Int) (text : String) (course : Timely uri m₀ ⟨m, queue⟩ entries) :
    Timely uri m₀ ⟨m.tell (Edit.change uri version text).event, queue⟩
      (entries ++ [.changed m.state.loop.now version text])
  | other {m : Rehearsal} {queue : List (Ready Nat)} {entries : List Entry} {e : Edit}
    (elsewhere : e.event.edits ≠ some uri) (course : Timely uri m₀ ⟨m, queue⟩ entries) :
    Timely uri m₀ ⟨m.tell e.event, queue⟩ entries
  | gather {m : Rehearsal} {entries : List Entry} (course : Timely uri m₀ ⟨m, []⟩ entries) :
    Timely uri m₀ (Moment.gather ⟨m, []⟩) entries
  | turn {m : Rehearsal} {i : Ready Nat} {queue : List (Ready Nat)} {entries : List Entry}
    (course : Timely uri m₀ ⟨m, i :: queue⟩ entries) :
    Timely uri m₀ ⟨m.runReady rules i, queue⟩ (entries ++ since uri m (m.runReady rules i))
  | clock {m : Rehearsal} {entries : List Entry} {t : Instant}
    (course : Timely uri m₀ ⟨m, []⟩ entries) (done : m.isBusy = false) (le : m.state.loop.now ≤ t)
    (early : ∀ next, m.state.loop.nextDue? = some next → t ≤ next) :
    Timely uri m₀ ⟨m.setClock t, []⟩ entries

/-- Nothing can be done before time passes. -/
def Settled (c : Moment State Unit Unit Job Nat) : Prop :=
  c.queue = [] ∧ c.machine.isBusy = false

theorem Keeps.marks (h : Keeps (some quiet) queue m T n) (uri : String) :
    (T uri).marks = m.state.marksOf uri := by
  obtain ⟨A, D, U, holds, -⟩ := h
  exact holds.marks uri

/-- The runs of a document are of what its track says.  There is at most one. -/
theorem Keeps.subject (h : Keeps (some quiet) queue m T n) (uri : String) :
    (m.state.machine.runsOf uri).map (fun e => (e.2.version, e.2.text)) =
      (T uri).doc.subject?.toList := by
  obtain ⟨A, D, U, holds, -⟩ := h
  have tied := holds.tied uri nofun
  generalize (T uri).doc = k at tied
  have same : k.subject? = (D uri).subject? := by
    cases tied <;> exact Doc.subject?_map ..
  rw [same]
  have shows := holds.shows uri
  generalize D uri = d at shows
  cases shows with
  | absent _ _ runs | resting _ _ _ _ runs | waiting _ _ _ _ runs | running _ _ _ _ _ runs =>
    rw [runs]
    rfl

/-- What there is to take down is what the track says. -/
theorem Keeps.since_eq (h : Keeps (some quiet) queue m T n)
    (h' : Keeps (some quiet) queue' m' T' n')
    (now : m'.state.loop.now = m.state.loop.now) (uri : String) :
    since uri m m' = news m.state.loop.now (T uri) (T' uri) := by
  have calm : m.state.machine.runsOf uri = [] ↔ (T uri).doc.subject? = none := by
    rw [← Option.toList_eq_nil_iff, ← h.subject uri, List.map_eq_nil_iff]
  rw [since, news, h.marks uri, h'.marks uri, ← h'.subject uri, now]
  congr 1
  by_cases idle : m.state.machine.runsOf uri = []
  · rw [if_pos idle, if_pos (calm.mp idle), List.map_map]
    rfl
  · rw [if_neg idle, if_neg (mt calm.mpr idle)]
    rfl

/-- What is known along a timely course: all documents move along their tracks, and the entries say
how one of them stands. -/
structure OnTime (quiet : Int) (uri : String) (c : Moment State Unit Unit Job Nat)
    (entries : List Entry) (T : String → Track) (n : Nat) : Prop where
  keeps : Keeps (some quiet) c.queue c.machine T n
  chronicled : Chronicled quiet c.machine.state.loop.now entries (T uri).doc

theorem OnTime.change (h : OnTime quiet uri ⟨m, queue⟩ entries T n)
    (nonneg : 0 ≤ quiet) (version : Int) (text : String) :
    ∃ T' n', OnTime quiet uri ⟨m.tell (Edit.change uri version text).event, queue⟩
      (entries ++ [.changed m.state.loop.now version text]) T' n' := by
  obtain ⟨keeps, now⟩ := h.keeps.tell (e := .change uri version text) rfl
  refine ⟨_, _, keeps, ?_⟩
  rw [now, Function.update_self]
  exact h.chronicled.changed nonneg version text

theorem OnTime.other (h : OnTime quiet uri ⟨m, queue⟩ entries T n) {e : Edit}
    (elsewhere : e.event.edits ≠ some uri) :
    ∃ T' n', OnTime quiet uri ⟨m.tell e.event, queue⟩ entries T' n' := by
  obtain ⟨about, edits⟩ := e.edits
  obtain ⟨keeps, now⟩ := h.keeps.tell edits
  have ne : uri ≠ about := by
    rintro rfl
    exact elsewhere edits
  refine ⟨_, _, keeps, ?_⟩
  rw [now, Function.update_of_ne ne]
  exact h.chronicled

theorem OnTime.gather (h : OnTime quiet uri ⟨m, []⟩ entries T n) :
    OnTime quiet uri (Moment.gather ⟨m, []⟩) entries T n := by
  obtain ⟨keeps, now, -⟩ := h.keeps.gather
  refine ⟨keeps, ?_⟩
  rw [now]
  exact h.chronicled

theorem OnTime.turn (h : OnTime quiet uri ⟨m, i :: queue⟩ entries T n) (nonneg : 0 ≤ quiet) :
    ∃ T' n', OnTime quiet uri ⟨m.runReady rules i, queue⟩
      (entries ++ since uri m (m.runReady rules i))
      T' n' := by
  rw [← rulesBy_taking]
  obtain ⟨T', n', -, keeps, now, moves⟩ := h.keeps.turn taking
  refine ⟨T', n', keeps, ?_⟩
  rw [h.keeps.since_eq keeps now uri, now]
  rcases moves uri with same | next
  · have nothing : news m.state.loop.now (T uri) (T uri) = [] := by
      rw [news, List.drop_length]
      cases (T uri).doc.subject? <;> rfl
    rw [same, nothing, List.append_nil]
    exact h.chronicled
  · exact h.chronicled.next nonneg next

theorem OnTime.clock (h : OnTime quiet uri ⟨m, []⟩ entries T n) (done : m.isBusy = false)
    (le : m.state.loop.now ≤ t) (early : ∀ next, m.state.loop.nextDue? = some next → t ≤ next) :
    OnTime quiet uri ⟨m.setClock t, []⟩ entries T n where
  keeps := h.keeps.setClock done le
  chronicled := h.chronicled.clock (h.keeps.idle done uri) le (h.keeps.until done early uri)

/-- The quiet time in microseconds, for a number of milliseconds that is kept within its bounds. -/
def quietTime (debounce : Int) : Int :=
  min (max debounce 50) 2000 * 1000

theorem quietTime_nonneg (debounce : Int) : 0 ≤ quietTime debounce := by
  unfold quietTime
  omega

theorem Timely.onTime {debounce : Int} {behaviours : List Behaviour} {watchesClosing : Bool}
    (course : Timely uri (Rehearsal.start debounce behaviours watchesClosing) c entries) :
    ∃ T n, OnTime (quietTime debounce) uri c entries T n := by
  have nonneg := quietTime_nonneg debounce
  induction course with
  | start => exact ⟨_, 0, keeps_start debounce behaviours watchesClosing, .nil _ _, .absent rfl rfl⟩
  | change version text _ ih =>
    obtain ⟨T, n, h⟩ := ih
    exact h.change nonneg version text
  | other elsewhere _ ih =>
    obtain ⟨T, n, h⟩ := ih
    exact h.other elsewhere
  | gather _ ih =>
    obtain ⟨T, n, h⟩ := ih
    exact ⟨T, n, h.gather⟩
  | turn _ ih =>
    obtain ⟨T, n, h⟩ := ih
    exact h.turn nonneg
  | clock _ done le early ih =>
    obtain ⟨T, n, h⟩ := ih
    exact ⟨T, n, h.clock done le early⟩

/-- What can be done without time passing comes to an end. -/
theorem OnTime.settles (h : OnTime quiet uri c entries T n) :
    ∃ limit, (Machine.settle rules limit
      (c.queue.foldl (Machine.runReady rules) c.machine)).isBusy = false := by
  rw [← rulesBy_taking]
  obtain ⟨T₁, n₁, -, keeps, -⟩ := h.keeps.turns taking 0
  obtain ⟨_, _, -, -, -, done, -⟩ := keeps.settle (n₁ + 1) taking 0
  exact ⟨n₁ + 1, (done (Nat.lt_succ_self n₁)).1⟩

/-! ## Bursts -/

/-- A change comes before the quiet time has passed since the last one. -/
def Entry.Soon (quiet : Int) (a : Account) (e : Entry) : Prop :=
  ∀ t version text, e = .changed t version text → ∀ c, a.change = some c → t < c.1 + quiet

/-- Each change but the first comes before the quiet time has passed since the one before.  The
first may come at any time. -/
def Burst (quiet : Int) : List Entry → Prop :=
  Throughout fun before e => e.Soon quiet (account before)

/-- When validations are started, and of which versions and texts. -/
def starts (entries : List Entry) : List (Instant × Int × String) :=
  entries.filterMap Entry.start?

@[simp] theorem starts_concat (entries : List Entry) (e : Entry) :
    starts (entries ++ [e]) = starts entries ++ e.start?.toList := by
  rw [starts, List.filterMap_append]
  cases h : e.start? <;> simp [h, starts]

/-- How far a burst has come, given what all entries come to: no change has come, changes have come
and none of them is validated yet, or the last of them is. -/
inductive Midst (quiet : Int) (a : Account) (burst : List Entry) : Prop
  | calm (change : (account burst).change = none) (starts : starts burst = [])
    (settled : a.pending = false)
  | changed {t : Instant} {version : Int} {text : String}
    (change : (account burst).change = some (t, version, text))
      (same : a.change = some (t, version, text))
    (starts : starts burst = []) (pending : a.pending = true)
  | started {t s : Instant} {version : Int} {text : String}
    (change : (account burst).change = some (t, version, text)) (late : t + quiet ≤ s)
    (start : .started s version text ∈ burst) (starts : starts burst = [(s, version, text)])
    (settled : a.pending = false)

theorem Account.Due.late (h : a.Due quiet t version text) :
    ∃ changed, a.change = some (changed, version, text) ∧ changed + quiet ≤ t := by
  obtain ⟨changed, change, rfl⟩ := h.settled
  refine ⟨changed, change, Int.add_le_add_right ?_ _⟩
  cases a.ended with
  | none => exact Int.le_refl _
  | some t => exact Int.le_max_left ..

/-- The end or begin of a validation is neither a change nor a start. -/
theorem Midst.mark {burst : List Entry} {mark : Mark} (h : Midst quiet a burst) :
    Midst quiet (a.add (.marked mark)) (burst ++ [.marked mark]) := by
  have same : starts (burst ++ [.marked mark]) = starts burst := by
    rw [starts_concat]
    exact List.append_nil _
  have change : (account (burst ++ [.marked mark])).change = (account burst).change := by
    rw [account_concat]
    cases mark <;> rfl
  have pending : (a.add (.marked mark)).pending = a.pending := by cases mark <;> rfl
  cases h with
  | calm unchanged none settled =>
    exact .calm (change.trans unchanged) (same.trans none) (pending.trans settled)
  | changed changed known none left =>
    refine .changed (change.trans changed) ?_ (same.trans none) (pending.trans left)
    cases mark <;> exact known
  | started changed late start once settled =>
    exact .started (change.trans changed) late (List.mem_append_left _ start) (same.trans once)
      (pending.trans settled)

/-- One thing more happens in a burst. -/
theorem Midst.add {burst : List Entry} (h : Midst quiet a burst)
    (inTime : e.InTime quiet a) (ordered : ∀ e' ∈ burst, e'.time ≤ e.time)
    (soon : e.Soon quiet (account burst)) :
    Midst quiet (a.add e) (burst ++ [e]) := by
  cases e with
  | changed t version text =>
    cases h with
    | calm _ none | changed _ _ none =>
      exact .changed (by rw [account_concat]; rfl) rfl (by rw [starts_concat, none]; rfl) rfl
    | started change late start =>
      -- A change after the start would have come before the quiet time had passed.
      have after := ordered _ start
      have before := soon t version text rfl _ change
      exact absurd (Int.lt_of_lt_of_le before late) (Int.not_lt.2 after)
  | started t version text =>
    have due : a.Due quiet t version text := inTime
    cases h with
    | calm _ _ settled | started _ _ _ _ settled => cases settled.symm.trans due.pending
    | changed change same none =>
      obtain ⟨changed, same', late⟩ := due.late
      cases same.symm.trans same'
      refine .started (by rw [account_concat]; exact change) late ?_
        (by rw [starts_concat, none]; rfl) rfl
      exact List.mem_append_right _ (List.mem_singleton_self _)
  | marked mark => exact h.mark

/-- A burst that begins when no change is left to be validated. -/
theorem Paced.midst {before burst : List Entry} (h : Paced quiet (before ++ burst))
    (ordered : burst.Pairwise (·.time ≤ ·.time)) (settled : (account before).pending = false)
    (close : Burst quiet burst) : Midst quiet (account (before ++ burst)) burst := by
  -- By adding one entry at a time at the end, as the condition on an entry refers to those before
  -- it.
  induction burst using List.reverseRecOn with
  | nil => exact .calm rfl rfl (by rwa [List.append_nil])
  | append_singleton burst e ih =>
    rw [← List.append_assoc] at h ⊢
    rw [account_concat]
    obtain ⟨paced, inTime⟩ := throughout_concat.1 h
    obtain ⟨close, soon⟩ := throughout_concat.1 close
    obtain ⟨ordered, -, last⟩ := List.pairwise_append.1 ordered
    exact (ih paced ordered close).add inTime
      (fun e' he' => last e' he' e (List.mem_singleton_self e)) soon

/-! ## Debouncing -/

/-- Along every timely course in which a document is only changed, wherever in an instant its
changes come, and however long validations take:

- each validation of it is started when a change has come since the one before was started, just
  when the quiet time has passed since the last change and since the end of the one before, and it
  is of what the last change left; it begins in the same instant and with the same version and text,
  and then ends before the next is started;
- what can be done without time passing comes to an end, and then no validation is overdue or about
  to begin;
- a burst of changes that begins when no change is left to be validated leads to one validation, of
  the last of the changes, unless that is still to come: then another validation is under way, or
  the quiet time has not passed yet. -/
theorem validations_wait_for_quiet (debounce : Int) (behaviours : List Behaviour)
    (watchesClosing : Bool)
    {uri : String} {c : Moment State Unit Unit Job Nat} {entries : List Entry}
    (course : Timely uri (Rehearsal.start debounce behaviours watchesClosing) c entries) :
    let quiet := min (max debounce 50) 2000 * 1000
    (∀ before e after, entries = before ++ e :: after → e.InTime quiet (account before)) ∧
    (∃ limit, (Machine.settle rules limit
      (c.queue.foldl (Machine.runReady rules) c.machine)).isBusy = false) ∧
    (Settled c → (∀ t version text, (account entries).progress ≠ .started t version text) ∧
      ∀ t version text, (account entries).Due quiet t version text → c.state.loop.now < t) ∧
    ∀ before burst, entries = before ++ burst → (account before).pending = false →
      Burst quiet burst →
      ∀ t version text, (account burst).change = some (t, version, text) →
        (∃ s, starts burst = [(s, version, text)]) ∨
          (starts burst = [] ∧
            (Settled c → (∃ subject, (account entries).progress = .begun subject) ∨
            ∃ due, (account entries).Due quiet due version text ∧ c.state.loop.now < due)) := by
  intro quiet
  obtain ⟨T, n, h⟩ := course.onTime
  -- At a settled moment nothing is to be done, so nothing of what is due has been left undone.
  have calm (settled : Settled c) :
      (∀ t version text, (account entries).progress ≠ .started t version text) ∧
        ∀ t version text, (account entries).Due quiet t version text → c.state.loop.now < t := by
    obtain ⟨machine, queue⟩ := c
    obtain ⟨rfl, done⟩ : queue = [] ∧ machine.isBusy = false := settled
    exact h.chronicled.not_overdue (h.keeps.idle done uri)
  refine ⟨h.chronicled.chronicle.paced, h.settles, calm, ?_⟩
  rintro before burst rfl settled close t version text change
  -- A burst is a stretch of the chronicle: it has led to a validation or leaves one pending.
  have ordered := (List.pairwise_append.1 h.chronicled.chronicle.ordered).2.1
  cases h.chronicled.chronicle.paced.midst ordered settled close with
  | calm none => cases none.symm.trans change
  | started change' _ _ once =>
    cases change'.symm.trans change
    exact .inl ⟨_, once⟩
  | changed change' same none pending =>
    cases change'.symm.trans change
    refine .inr ⟨none, fun done => ?_⟩
    cases progress : (account (before ++ burst)).progress with
    | begun subject => exact .inl ⟨subject, rfl⟩
    | started => exact absurd progress ((calm done).1 _ _ _)
    | none =>
      have due : (account (before ++ burst)).Due quiet _ version text :=
        ⟨pending, progress, t, same, rfl⟩
      exact .inr ⟨_, due, (calm done).2 _ _ _ due⟩

/-- What there is to take down of a document while what is ready is done. -/
def sinceTurns (uri : String) : List (Ready Nat) → Rehearsal → List Entry
  | [], _ => []
  | i :: queue, m => since uri m (m.runReady rules i) ++ sinceTurns uri queue (m.runReady rules i)

/-- What there is to take down of a document while rounds are done until nothing is ready. -/
def sinceSettling (uri : String) : Nat → Rehearsal → List Entry
  | 0, _ => []
  | limit + 1, m =>
    if m.isBusy then
      sinceTurns uri (Moment.gather ⟨m, []⟩).queue (Moment.gather ⟨m, []⟩).machine ++
        sinceSettling uri limit (m.round rules)
    else []

theorem Timely.turns (course : Timely uri m₀ ⟨m, queue⟩ entries) :
    Timely uri m₀ ⟨queue.foldl (Machine.runReady rules) m, []⟩
      (entries ++ sinceTurns uri queue m) := by
  induction queue generalizing m entries with
  | nil =>
    rw [sinceTurns, List.append_nil]
    exact course
  | cons i queue ih =>
    have onward := ih course.turn
    rw [List.append_assoc] at onward
    exact onward

/-- Rounds are done until nothing is ready.  What they bring is added at the end. -/
theorem Timely.settle (course : Timely uri m₀ ⟨m, []⟩ entries) (limit : Nat) :
    Timely uri m₀ ⟨Machine.settle rules limit m, []⟩ (entries ++ sinceSettling uri limit m) := by
  induction limit generalizing m entries with
  | zero =>
    rw [sinceSettling, List.append_nil]
    exact course
  | succ limit ih =>
    rw [Machine.settle, sinceSettling]
    split
    · have onward := ih course.gather.turns
      rw [List.append_assoc] at onward
      exact onward
    · rwa [List.append_nil]

/-- Lets what can be done be done, and then moves the clock. -/
def settleAndWait (t : Instant) (m : Rehearsal) : Rehearsal :=
  Rehearsal.setClock (Machine.settle rules 10 m) t

theorem Timely.settleAndWait (course : Timely uri m₀ ⟨m, []⟩ entries) (t : Instant)
    (done : (Machine.settle rules 10 m).isBusy = false)
    (past : (Machine.settle rules 10 m).state.loop.now ≤ t)
    (early : ((Machine.settle rules 10 m).state.loop.nextDue?.all (t ≤ ·)) = true) :
    Timely uri m₀ ⟨settleAndWait t m, []⟩ (entries ++ sinceSettling uri 10 m) :=
  (course.settle 10).clock done past fun next due => by
    rw [due] at early
    exact of_decide_eq_true early

/-- A scheduler whose first validation takes three tenths of a second. -/
def slowAtFirst : Rehearsal :=
  Rehearsal.start 250 [{ length := some (Duration.milliseconds 300) }] true

/-- A document is changed, and a tenth of a second later once more; then it is left alone. -/
def changedTwice : Rehearsal :=
  let once :=
    settleAndWait 100000 (slowAtFirst.tell (Edit.change "file:///a.pike" 1 "int x;").event)
  let twice := settleAndWait 350000 (once.tell (Edit.change "file:///a.pike" 2 "int y;").event)
  Machine.settle rules 10 (settleAndWait 650000 twice)

/-- What there is to take down of it. -/
def twoChanges : List Entry :=
  [] ++ [.changed 0 1 "int x;"] ++ [.changed 100000 2 "int y;"] ++ [.started 350000 2 "int y;"] ++
    [.marked (.began 350000 2 "int y;")] ++ [.marked (.ended 650000 2)]

theorem timely_changedTwice :
    Timely "file:///a.pike" slowAtFirst ⟨changedTwice, []⟩ twoChanges := by
  have opened : Timely "file:///a.pike" slowAtFirst ⟨slowAtFirst, []⟩ [] := .start
  have once := (opened.change 1 "int x;").settleAndWait 100000
    (by decide +kernel) (by decide +kernel)
    (by decide +kernel)
  have twice := (once.change 2 "int y;").settleAndWait 350000
    (by decide +kernel) (by decide +kernel)
    (by decide +kernel)
  have course := (twice.settleAndWait 650000 (by decide +kernel) (by decide +kernel)
    (by decide +kernel)).settle 10
  convert course using 1
  · rfl
  · decide +kernel

/-- The two changes are a burst, which leads to one validation. -/
theorem changedTwice_is_validated_once :
    ∃ entries, Timely "file:///a.pike" slowAtFirst ⟨changedTwice, []⟩ entries ∧
      Burst 250000 entries ∧
      (account entries).change = some (100000, 2, "int y;") ∧
        ∃ s, starts entries = [(s, 2, "int y;")] := by
  have burst : Burst 250000 twoChanges := by
    simp only [Burst, twoChanges, throughout_concat, Entry.Soon, account_concat, Account.add]
    simp
  refine ⟨_, timely_changedTwice, burst, rfl, ?_⟩
  obtain ⟨-, -, -, bursts⟩ := validations_wait_for_quiet 250
    [{ length := some (Duration.milliseconds 300) }] true timely_changedTwice
  refine (bursts [] _ rfl rfl burst _ _ _ rfl).resolve_right fun still => ?_
  cases still.1

end PikeAnalysis.Simulation.Scheduling

/-
Module: Keypad.Proofs.Log.DeleteAll
Layer: proofs
Purpose: What is asked of a server when all documents of a remote log are to be deleted, and
  what the count in the answer says, whatever the server does.
Trusted boundary: none; the server is an argument of the exchanges.
Main exports:
  Exchange.transcript, Reply.Fails, RemoteLog.IsConclusive, RemoteLog.IsListing, RemoteLog.removed,
  RemoteLog.tolerated, RemoteLog.IsDeletionOrder, RemoteLog.Deletes, RemoteLog.Tries,
  RemoteLog.deleteEach_tries, deleteAll_does_what_it_counts
-/
import Keypad.Proofs.Log.Keeper

namespace Keypad

/-!
Nothing is relied on of the server here but that the statuses of its answers say success or
failure.  It may answer one request so and the next one otherwise, or not at all, and its documents
need not be what it has listed.
-/

/-! ### What is said between a client and its server -/

namespace Exchange

variable {α σ : Type}

/-- The requests of an exchange in their order, each with what the server answers to it. -/
def transcript (server : Outgoing → σ → Option Reply × σ) :
    Exchange α → σ → List (Outgoing × Option Reply)
  | .done _, _ => []
  | .ask request next, state =>
      (request, (server request state).1) ::
        (next (server request state).1).transcript server (server request state).2

end Exchange

/-! ### What answers say -/

/-- A status of failure. -/
def Reply.Fails (reply : Reply) : Prop := 400 ≤ reply.status ∧ reply.status < 600

instance (reply : Reply) : Decidable reply.Succeeds := inferInstanceAs (Decidable (_ ∧ _))

instance (reply : Reply) : Decidable reply.Fails := inferInstanceAs (Decidable (_ ∧ _))

theorem Reply.Fails.isFailureStatus {reply : Reply} (fails : reply.Fails) :
    RemoteLog.isFailureStatus reply.status = true := by
  simpa [RemoteLog.isFailureStatus, Reply.Fails] using fails

theorem Reply.Fails.not_succeeds {reply : Reply} (fails : reply.Fails) : ¬reply.Succeeds :=
  fun succeeds => absurd succeeds.2 (Nat.not_lt.mpr (Nat.le_trans (by decide) fails.1))

namespace RemoteLog

/-- A status says success or failure, if there is an answer. -/
def IsConclusive (answer : Option Reply) : Prop :=
  ∀ reply ∈ answer, reply.Succeeds ∨ reply.Fails

/-- The answer is a listing of these entries: it says success, and they can be read in its
body. -/
def IsListing (answer : Option Reply) (entries : List LogEntry) : Prop :=
  ∃ reply, answer = some reply ∧ reply.Succeeds ∧ readEntries? reply.body = some entries

theorem IsListing.unique {answer : Option Reply} {entries others : List LogEntry}
    (lists : IsListing answer entries) (listsOthers : IsListing answer others) :
    entries = others := by
  obtain ⟨reply, rfl, _, read⟩ := lists
  obtain ⟨_, ⟨⟩, _, readOthers⟩ := listsOthers
  exact Option.some.inj (read.symm.trans readOthers)

/-- Whether the answer to a deletion says success. -/
def removed (answer : Option Reply) : Bool := answer.any fun reply => reply.Succeeds

/-- Whether the answer to a deletion says that there is no such document. -/
def gone (answer : Option Reply) : Bool := answer.any fun reply => reply.status = 404

/-- Whether deleting goes on behind an answer. -/
def tolerated (answer : Option Reply) : Bool := removed answer || gone answer

/-- Entries in the order in which they are to be deleted, when they have been listed in another:
the latest first, and those of the same time as they have been listed. -/
structure IsDeletionOrder (listed ordered : List LogEntry) : Prop where
  same : ordered.Perm listed
  latestFirst : LatestFirst ordered
  stable : ∀ time, (ordered.filter fun entry => entry.timestamp = time) =
    listed.filter fun entry => entry.timestamp = time

theorem latestFirst_isDeletionOrder (entries : List LogEntry) :
    IsDeletionOrder entries (latestFirst entries) where
  same := latestFirst_perm entries
  latestFirst := latestFirst_ordered entries
  stable := latestFirst_stable entries

/-- A request that deletes the document of an id: it asks for what the URL of the documents asks
for with the id behind it.  Where this URL ends with its path, and the id means itself as a segment,
the target names the id behind the path. -/
def Deletes (log : RemoteLog) (collection : List Text) (id : Text) (request : Outgoing) : Prop :=
  ∃ url, Url.parse? (log.documents ++ '/' :: id) = some url ∧
    request = ⟨.delete, url.target, log.project, log.key, none⟩ ∧
    (Url.IsPathOnly log.documents → Url.IsSegment id → Url.Names collection id url.target)

theorem IsListing.listingOutcome {answer : Option Reply} {entries : List LogEntry}
    (lists : IsListing answer entries) :
    RemoteLog.listingOutcome answer = .ok (latestFirst entries) := by
  obtain ⟨reply, rfl, succeeds, read⟩ := lists
  simp only [RemoteLog.listingOutcome, Option.elim, decoded, succeeds.not_failure.1,
    Bool.false_eq_true, if_false, read]
  rfl

/-- An answer that is no listing is a failure of the store. -/
theorem listingOutcome_cases {answer : Option Reply}
    (conclusive : IsConclusive answer) :
    (∃ entries, IsListing answer entries ∧ listingOutcome answer = .ok (latestFirst entries)) ∨
      ((∀ entries, ¬IsListing answer entries) ∧ listingOutcome answer = .error .unavailable) := by
  by_cases listed : ∃ entries, IsListing answer entries
  case pos =>
    obtain ⟨entries, lists⟩ := listed
    exact .inl ⟨entries, lists, lists.listingOutcome⟩
  case neg =>
    refine .inr ⟨fun entries lists => listed ⟨entries, lists⟩, ?_⟩
    cases answer with
    | none => rfl
    | some reply =>
        rcases conclusive reply rfl with succeeds | fails
        case inl =>
          have unread : readEntries? reply.body = none := by
            cases read : readEntries? reply.body with
            | none => rfl
            | some entries => exact absurd ⟨entries, reply, rfl, succeeds, read⟩ listed
          simp only [listingOutcome, Option.elim, decoded, succeeds.not_failure.1,
            Bool.false_eq_true, if_false, unread]
          rfl
        case inr =>
          simp only [listingOutcome, Option.elim, decoded, fails.isFailureStatus, if_true]
          rfl

/-- What an answer to a deletion comes to is told by its status. -/
theorem deletionOutcome_cases {answer : Option Reply}
    (conclusive : IsConclusive answer) :
    (removed answer = true ∧ deletionOutcome answer = .ok ()) ∨
      (removed answer = false ∧ gone answer = true ∧
        deletionOutcome answer = .error .notFound) ∨
      (tolerated answer = false ∧ deletionOutcome answer = .error .unavailable) := by
  cases answer with
  | none => exact .inr (.inr ⟨rfl, rfl⟩)
  | some reply =>
      rcases conclusive reply rfl with succeeds | fails
      case inl =>
        refine .inl ⟨decide_eq_true succeeds, ?_⟩
        simp [deletionOutcome, deletion, succeeds.not_failure]
      case inr =>
        have kept : removed (some reply) = false := decide_eq_false fails.not_succeeds
        by_cases missing : reply.status = 404
        case pos =>
          refine .inr (.inl ⟨kept, decide_eq_true missing, ?_⟩)
          simp [deletionOutcome, deletion, missing]
        case neg =>
          have notGone : gone (some reply) = false := decide_eq_false missing
          refine .inr (.inr ⟨by rw [tolerated, kept, notGone]; rfl, ?_⟩)
          simp [deletionOutcome, deletion, missing, fails.isFailureStatus]

/-! ### One request after another -/

/-- Where the URL of the documents cannot be read, there is no one to ask. -/
theorem deleteAll_unasked {log : RemoteLog} (unread : Url.parse? log.documents = none) :
    log.deleteAll = .done (.error .unavailable) := by
  have unlisted : log.list = .done (.error .unavailable) := by rw [list, RemoteLog.request, unread]
  rw [deleteAll, unlisted]
  rfl

/-- A log of an endpoint asks for the deletion of any id, when the URL of its documents can be
read. -/
theorem ofEndpoint_deletes {settings : StoreSettings} {endpoint : Text} {url : Url}
    (headers : (ofEndpoint settings endpoint).HasHeaders)
    (read : Url.parse? (ofEndpoint settings endpoint).documents = some url) (id : Text) :
    ∃ request, (ofEndpoint settings endpoint).Deletes url.segments id request ∧
      (ofEndpoint settings endpoint).delete id =
        .ask request fun answer => .done (deletionOutcome answer) := by
  obtain ⟨front, ends⟩ := ofEndpoint_documents_ends settings endpoint
  have readable : ∃ url', Url.parse? ((ofEndpoint settings endpoint).documents ++ '/' :: id) =
      some url' := by
    rw [ends] at read ⊢
    exact Url.exists_parse?_behind (by decide) read _
  obtain ⟨url', readDocument⟩ := readable
  refine ⟨⟨.delete, url'.target, settings.project, settings.key, none⟩,
    ⟨url', readDocument, rfl, fun plain own => ?_⟩, delete_asks headers readDocument⟩
  obtain ⟨_, readOwn, names⟩ := (ofEndpoint_reaches headers plain read).document id own
  cases readDocument.symm.trans readOwn
  exact names

/-- What comes of asking for the deletion of entries one after another, when `count` have been
deleted before: those that are tried and those that are left over, the requests with the answers to
them, and the outcome. -/
structure Tries (log : RemoteLog) (collection : List Text) (count : Nat)
    (tried left : List LogEntry) (deletions : List (Outgoing × Option Reply))
    (outcome : Outcome Nat) : Prop where
  each : List.Forall₂ (fun entry asked => log.Deletes collection entry.id asked.1) tried deletions
  stops : deletions.Pairwise fun earlier _ => tolerated earlier.2 = true
  complete : (∀ asked ∈ deletions, tolerated asked.2 = true) →
    left = [] ∧ outcome = .ok (count + deletions.countP fun asked => removed asked.2)
  broken : (∃ asked ∈ deletions, tolerated asked.2 = false) → outcome = .error .unavailable

namespace Tries

variable {log : RemoteLog} {collection : List Text} {count : Nat} {entry : LogEntry}
  {tried left : List LogEntry} {request : Outgoing} {answer : Option Reply}
  {deletions : List (Outgoing × Option Reply)} {outcome : Outcome Nat}

theorem nil (log : RemoteLog) (collection : List Text) (count : Nat) :
    Tries log collection count [] [] [] (.ok count) where
  each := .nil
  stops := .nil
  complete _ := ⟨rfl, rfl⟩
  broken := nofun

/-- Behind an answer that is tolerated the others are tried, and a removal counts. -/
theorem cons (deletes : log.Deletes collection entry.id request)
    (goesOn : tolerated answer = true)
    (tries : Tries log collection (count + if removed answer then 1 else 0) tried left deletions
      outcome) :
    Tries log collection count (entry :: tried) left ((request, answer) :: deletions) outcome where
  each := .cons deletes tries.each
  stops := .cons (fun _ _ => goesOn) tries.stops
  complete all := by
    obtain ⟨none, counted⟩ := tries.complete fun asked member => all asked (.tail _ member)
    refine ⟨none, ?_⟩
    rw [counted, List.countP_cons, Nat.add_assoc, Nat.add_comm (if removed answer then 1 else 0)]
  broken := by
    rintro ⟨asked, member, refused⟩
    rcases List.mem_cons.mp member with rfl | later
    · cases goesOn.symm.trans refused
    · exact tries.broken ⟨asked, later, refused⟩

/-- Behind any other answer the others are left over. -/
theorem refused (deletes : log.Deletes collection entry.id request)
    (refused : tolerated answer = false) (rest : List LogEntry) :
    Tries log collection count [entry] rest [(request, answer)] (.error .unavailable) where
  each := .cons deletes .nil
  stops := List.pairwise_singleton _ _
  complete all := by cases (all _ List.mem_cons_self).symm.trans refused
  broken _ := rfl

/-- The outcome is a count exactly when all have been tried and no answer was refused. -/
theorem outcome_eq_ok_iff (tries : Tries log collection count tried left deletions outcome)
    (n : Nat) :
    outcome = .ok n ↔
      left = [] ∧ (∀ asked ∈ deletions, tolerated asked.2 = true) ∧
        n = count + deletions.countP fun asked => removed asked.2 := by
  constructor
  · rintro rfl
    have all : ∀ asked ∈ deletions, tolerated asked.2 = true := by
      intro asked member
      by_contra refused
      cases tries.broken ⟨asked, member, Bool.eq_false_iff.mpr refused⟩
    obtain ⟨none, counted⟩ := tries.complete all
    exact ⟨none, all, Except.ok.inj counted⟩
  · rintro ⟨_, all, rfl⟩
    exact (tries.complete all).2

end Tries

section Courses

variable {σ : Type} {log : RemoteLog} {collection : List Text}
  {server : Outgoing → σ → Option Reply × σ}

/-- Whatever the server does, the listed entries are tried up to the first answer that is not
tolerated. -/
theorem deleteEach_tries
    (asks : ∀ id, ∃ request, log.Deletes collection id request ∧
      log.delete id = .ask request fun answer => .done (deletionOutcome answer))
    (entries : List LogEntry) :
    ∀ count state,
      (∀ asked ∈ (log.deleteEach entries count).transcript server state,
        IsConclusive asked.2) →
      ∃ tried left, entries = tried ++ left ∧
        Tries log collection count tried left
          ((log.deleteEach entries count).transcript server state)
          ((log.deleteEach entries count).run server state).1 := by
  -- the induction is on the entries that are left; each answer leaves the server in another state,
  -- and says whether the count goes up
  induction entries with
  | nil => exact fun count state _ => ⟨[], [], rfl, .nil log collection count⟩
  | cons entry rest inductionHypothesis =>
      intro count state conclusive
      obtain ⟨request, deletes, asksEntry⟩ := asks entry.id
      rw [deleteEach_cons asksEntry, Exchange.transcript] at conclusive ⊢
      rw [Exchange.run]
      generalize server request state = told at conclusive ⊢
      obtain ⟨answer, after⟩ := told
      obtain ⟨conclusive, further⟩ := List.forall_mem_cons.mp conclusive
      dsimp only at conclusive further ⊢
      rcases deletionOutcome_cases conclusive with
        ⟨taken, outcome⟩ | ⟨kept, missing, outcome⟩ | ⟨refused, outcome⟩
      · rw [outcome] at further ⊢
        obtain ⟨tried, left, rfl, tries⟩ := inductionHypothesis (count + 1) after further
        refine ⟨entry :: tried, left, rfl, .cons deletes ?_ ?_⟩
        · rw [tolerated, taken, Bool.true_or]
        · rw [taken, if_pos rfl]
          exact tries
      · rw [outcome] at further ⊢
        obtain ⟨tried, left, rfl, tries⟩ := inductionHypothesis count after further
        refine ⟨entry :: tried, left, rfl, .cons deletes ?_ ?_⟩
        · rw [tolerated, missing, Bool.or_true]
        · rw [kept]
          exact tries
      · rw [outcome]
        exact ⟨[entry], rest, rfl, .refused deletes refused rest⟩

end Courses

end RemoteLog

open RemoteLog

/-- Deleting all documents begins with one request for their listing; where their URL cannot be
read, nothing is asked at all.  When the answer is no listing, nothing is deleted, and the store has
failed.  Otherwise the listed documents are tried one after another, the latest first, each by one
request; behind an answer that says neither that the document is removed nor that there is none,
there are no more requests, and the store has failed.  The answer is a count exactly when all of
them have been tried and every answer was tolerated, and then it is the number of those removed. -/
theorem deleteAll_does_what_it_counts {σ : Type} {settings : StoreSettings} {endpoint : Text}
    (headers : (ofEndpoint settings endpoint).HasHeaders)
    {server : Outgoing → σ → Option Reply × σ} {state : σ}
    (conclusive : ∀ asked ∈ (ofEndpoint settings endpoint).deleteAll.transcript server state,
      IsConclusive asked.2) :
    (Url.parse? (ofEndpoint settings endpoint).documents = none →
      (ofEndpoint settings endpoint).deleteAll.transcript server state = [] ∧
        ((ofEndpoint settings endpoint).deleteAll.run server state).1 = .error .unavailable) ∧
    ∀ url, Url.parse? (ofEndpoint settings endpoint).documents = some url →
      ∃ answer deletions outcome,
        (ofEndpoint settings endpoint).deleteAll.transcript server state =
            (⟨.get, url.target, settings.project, settings.key, none⟩, answer) :: deletions ∧
          ((ofEndpoint settings endpoint).deleteAll.run server state).1 = outcome ∧
          ((∀ entries, ¬IsListing answer entries) →
            deletions = [] ∧ outcome = .error .unavailable) ∧
          ∀ entries, IsListing answer entries →
            ∃ tried left, IsDeletionOrder entries (tried ++ left) ∧
              List.Forall₂ (fun entry asked =>
                (ofEndpoint settings endpoint).Deletes url.segments entry.id asked.1)
                tried deletions ∧
              (deletions.Pairwise fun earlier _ => tolerated earlier.2 = true) ∧
              ((∀ asked ∈ deletions, tolerated asked.2 = true) → left = []) ∧
              ((∃ asked ∈ deletions, tolerated asked.2 = false) →
                outcome = .error .unavailable) ∧
              ∀ n, outcome = .ok n ↔
                left = [] ∧ (∀ asked ∈ deletions, tolerated asked.2 = true) ∧
                  n = deletions.countP fun asked => removed asked.2 := by
  refine ⟨fun unread => ?_, fun url read => ?_⟩
  · rw [deleteAll_unasked unread]
    exact ⟨rfl, rfl⟩
  have asks : (ofEndpoint settings endpoint).list =
      .ask ⟨.get, url.target, settings.project, settings.key, none⟩ fun answer =>
        .done (listingOutcome answer) := list_asks headers read
  rw [deleteAll_eq asks, Exchange.transcript] at conclusive ⊢
  rw [Exchange.run]
  generalize server ⟨.get, url.target, settings.project, settings.key, none⟩ state = told
    at conclusive ⊢
  obtain ⟨answer, after⟩ := told
  obtain ⟨conclusive, further⟩ := List.forall_mem_cons.mp conclusive
  refine ⟨answer, _, _, rfl, rfl, ?_⟩
  -- what is said behind the listing depends on what the answer to it comes to
  dsimp only at conclusive further ⊢
  rcases listingOutcome_cases conclusive with ⟨listed, lists, outcome⟩ | ⟨none, outcome⟩
  · rw [outcome, deleteListed] at further ⊢
    refine ⟨fun none => absurd lists (none listed), fun entries listsEntries => ?_⟩
    obtain rfl := lists.unique listsEntries
    obtain ⟨tried, left, cut, tries⟩ :=
      deleteEach_tries (ofEndpoint_deletes headers read) (latestFirst listed) 0 after further
    refine ⟨tried, left, cut ▸ latestFirst_isDeletionOrder listed, tries.each, tries.stops,
      fun all => (tries.complete all).1, tries.broken, fun n => ?_⟩
    rw [tries.outcome_eq_ok_iff, Nat.zero_add]
  · rw [outcome]
    exact ⟨fun _ => ⟨rfl, rfl⟩, fun entries lists => absurd lists (none entries)⟩

/-- A server that answers by a script, whatever it is asked, and hangs up behind it. -/
def scripted (_ : Outgoing) : List Reply → Option Reply × List Reply
  | [] => (none, [])
  | reply :: script => (some reply, script)

/-- Of three documents, two of them of the same time, one is gone when its turn comes. -/
theorem deleteAll_counts_two_of_three :
    let a : LogEntry := ⟨"a".toList, "1+1".toList, "2".toList, 5⟩
    let b : LogEntry := ⟨"b".toList, "2+2".toList, "4".toList, 7⟩
    let c : LogEntry := ⟨"c".toList, "1+2".toList, "3".toList, 5⟩
    let script : List Reply :=
      [⟨200, Keeper.listingText [a, b, c]⟩, ⟨204, []⟩, ⟨404, []⟩, ⟨204, []⟩]
    (∀ asked ∈ standard.deleteAll.transcript scripted script, IsConclusive asked.2) ∧
      (standard.deleteAll.run scripted script).1 = .ok 2 ∧
      ∃ listing deletions tried,
        standard.deleteAll.transcript scripted script = listing :: deletions ∧
        IsDeletionOrder [a, b, c] tried ∧
        List.Forall₂ (fun entry asked =>
          standard.Deletes standardDocuments.segments entry.id asked.1) tried deletions ∧
        2 = deletions.countP fun asked => removed asked.2 := by
  intro a b c script
  have read : Url.parse? standard.documents =
      some ⟨"cloud.example.com".toList, standardDocuments.segments, none⟩ := by
    decide +kernel
  have range : ∀ entry ∈ [a, b, c], entry.InRange := by decide
  have lists : IsListing (some ⟨200, Keeper.listingText [a, b, c]⟩) [a, b, c] :=
    ⟨_, rfl, by decide, readEntries?_of_textLists range (Keeper.textLists_listingText range)⟩
  have listed : listingOutcome (some ⟨200, Keeper.listingText [a, b, c]⟩) = .ok [b, a, c] := by
    rw [lists.listingOutcome]
    cbv
  have asks : standard.list = .ask _ fun answer => .done (listingOutcome answer) :=
    list_asks standard_hasHeaders read
  have said : (standard.deleteAll.transcript scripted script).map Prod.snd = script.map some := by
    rw [deleteAll_eq asks, Exchange.transcript]
    simp only [script, scripted, listed, deleteListed, List.map_cons]
    decide +kernel
  have came : (standard.deleteAll.run scripted script).1 = .ok 2 := by
    rw [deleteAll_eq asks, Exchange.run]
    simp only [script, scripted, listed, deleteListed]
    decide +kernel
  have conclusive :
      ∀ asked ∈ standard.deleteAll.transcript scripted script, IsConclusive asked.2 := by
    intro asked member reply answered
    have heard : asked.2 ∈ script.map some := said ▸ List.mem_map_of_mem member
    rw [answered, List.mem_map] at heard
    obtain ⟨_, scripted, ⟨⟩⟩ := heard
    revert scripted
    simp only [script, List.mem_cons, List.not_mem_nil, or_false]
    rintro (rfl | rfl | rfl | rfl)
    all_goals decide
  obtain ⟨answer, deletions, outcome, talk, ended, _, course⟩ :=
    (deleteAll_does_what_it_counts standard_hasHeaders conclusive).2 _ read
  have listsAnswer : IsListing answer [a, b, c] := by
    obtain ⟨rfl, _⟩ := List.cons.inj (said.symm.trans (congrArg (List.map Prod.snd) talk))
    exact lists
  obtain ⟨tried, left, inOrder, each, _, _, _, counts⟩ := course _ listsAnswer
  obtain ⟨rfl, _, two⟩ := (counts 2).mp (ended.symm.trans came)
  rw [List.append_nil] at inOrder
  exact ⟨conclusive, came, _, deletions, tried, talk, inOrder, each, two⟩

end Keypad

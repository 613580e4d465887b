import Overacp.Loop.Requests

/-!
# Pushes in the order they arrive

A notification reaches `next_push` by one of two ways: a request that waits for its response sets it
aside, or `next_push` reads it off the input itself. Whatever the order of the calls, what was set aside
is older than what is unread, so the pushes that were returned, those set aside and those unread are
together the pushes of the whole input, in its order.
-/

namespace Overacp

open Llm

/-! ### The lines of an input -/

/-- All lines of an input, with their line feeds; the last one may have none. -/
def linesOf : List Char → List (List Char)
  | [] => []
  | c :: cs =>
      if c = '\n' then ['\n'] :: linesOf cs
      else
        match linesOf cs with
        | [] => [[c]]
        | line :: lines => (c :: line) :: lines

theorem linesOf_eq_readLine {cs : List Char} (hne : cs ≠ []) :
    linesOf cs = (readLine cs).1 :: linesOf (readLine cs).2 := by
  induction cs with
  | nil => exact absurd rfl hne
  | cons c cs ih =>
      rw [linesOf, readLine]
      by_cases hfeed : c = '\n'
      · rw [if_pos hfeed, if_pos hfeed]
      · rw [if_neg hfeed, if_neg hfeed]
        by_cases hnil : cs = []
        · subst hnil
          rfl
        · rw [ih hnil]

theorem linesOf_append_newline {line : List Char} (hline : '\n' ∉ line) (rest : List Char) :
    linesOf (line ++ '\n' :: rest) = (line ++ ['\n']) :: linesOf rest := by
  have hne : line ++ '\n' :: rest ≠ [] := by simp
  rw [linesOf_eq_readLine hne, AcpClient.readLine_append hline]

theorem readLine_ne_nil {cs : List Char} (hne : cs ≠ []) : (readLine cs).1 ≠ [] := by
  cases cs with
  | nil => exact absurd rfl hne
  | cons c cs =>
      rw [readLine]
      split <;> exact List.cons_ne_nil _ _

theorem readLine_mem_linesOf (cs : List Char) : (readLine cs).1 ∈ linesOf cs ∨ (readLine cs).1 = [] := by
  by_cases hnil : cs = []
  · subst hnil
    exact .inr rfl
  · rw [linesOf_eq_readLine hnil]
    exact .inl List.mem_cons_self

theorem mem_linesOf_readLine {cs line : List Char} (hline : line ∈ linesOf (readLine cs).2) :
    line ∈ linesOf cs := by
  by_cases hnil : cs = []
  · subst hnil
    exact hline
  · rw [linesOf_eq_readLine hnil]
    exact List.mem_cons_of_mem _ hline

theorem mem_linesOf_readLines {n : Nat} {cs line : List Char} (hline : line ∈ linesOf (readLines n cs).2) :
    line ∈ linesOf cs := by
  induction n generalizing cs with
  | zero => exact hline
  | succ n ih => exact mem_linesOf_readLine (ih hline)

/-- The lines a reading takes are lines of the input, but for empty ones at its end. -/
theorem readLines_subset_linesOf {n : Nat} {cs line : List Char} (hline : line ∈ (readLines n cs).1) :
    line ∈ linesOf cs ∨ line = [] := by
  induction n generalizing cs with
  | zero => cases hline
  | succ n ih =>
      rcases List.mem_cons.mp hline with rfl | hrest
      · exact readLine_mem_linesOf cs
      · exact (ih hrest).imp_left mem_linesOf_readLine

namespace AcpClient

/-! ### What a line pushes -/

section Lines

variable (readNumber : Json.Number → Option Json.Number)

/-- A response: it has an id and no method. -/
def ResponseLine (line : List Char) : Prop :=
  ∃ peek, Json.read readNumber line = some peek ∧ (peek.get "id").isSome ∧ (peek.get "method").isNone

/-- A notification, with parameters that decode where `next_push` decodes them. -/
def DecodableLine (line : List Char) : Prop :=
  NotificationLine readNumber line ∧
    ∃ notif, JsonRpcNotification.ofText line = some notif ∧ ∀ e, classify notif ≠ some (.error e)

def WellFormed (line : List Char) : Prop := ResponseLine readNumber line ∨ DecodableLine readNumber line

end Lines

/-- The message or the cancel that a line is. -/
def pushOf (line : List Char) : Option NextPush :=
  (JsonRpcNotification.ofText line).bind fun notif => (classify notif).bind Except.toOption

def pushesOf (lines : List (List Char)) : List NextPush := lines.filterMap pushOf

/-- The frames `next_push` has still to come to, in the order it would. -/
def upcoming (client : AcpClient) : List (List Char) :=
  client.pendingNotifications ++ linesOf client.reader

theorem pushesOf_append (lines lines' : List (List Char)) :
    pushesOf (lines ++ lines') = pushesOf lines ++ pushesOf lines' := List.filterMap_append

theorem pushesOf_cons (line : List Char) (lines : List (List Char)) :
    pushesOf (line :: lines) = (pushOf line).toList ++ pushesOf lines := by
  rw [pushesOf, List.filterMap_cons]
  cases pushOf line with
  | none => rfl
  | some push => rfl

theorem pushOf_nil : pushOf [] = none := rfl

/-- The end of the input pushes nothing. -/
theorem pushesOf_readLine (cs : List Char) :
    pushesOf (linesOf cs) = (pushOf (readLine cs).1).toList ++ pushesOf (linesOf (readLine cs).2) := by
  by_cases hnil : cs = []
  · subst hnil
    rfl
  · rw [linesOf_eq_readLine hnil, pushesOf_cons]

theorem pushesOf_readLines (n : Nat) (cs : List Char) :
    pushesOf (linesOf cs) = pushesOf (readLines n cs).1 ++ pushesOf (linesOf (readLines n cs).2) := by
  induction n generalizing cs with
  | zero => rfl
  | succ n ih =>
      rw [readLines, pushesOf_cons, List.append_assoc, ← ih, ← pushesOf_readLine]

/-! ### Well-formed lines -/

variable {readNumber : Json.Number → Option Json.Number}

/-- A response is no notification to `next_push`. -/
theorem ResponseLine.ofText {line : List Char} (h : ResponseLine readNumber line) :
    JsonRpcNotification.ofText line = none := by
  obtain ⟨peek, hread, hid, hmethod⟩ := h
  obtain ⟨value, hparse, -, rfl⟩ := Json.read_eq_some hread
  rw [Json.get_asRead, Option.isSome_map] at hid
  rw [Json.get_asRead, Option.isNone_map, Option.isNone_iff_eq_none] at hmethod
  cases value with
  | object members =>
      have hunique := Json.unique_of_get_collapse hmethod
      rw [JsonRpcNotification.ofText, hparse, Option.bind_some, Json.fields]
      simp only [List.mapM_cons, hunique]
      split
      · rename_i heq
        simp only [Option.bind_eq_bind, Option.bind_some, Option.bind_eq_some_iff, Option.pure_def,
          Option.some.injEq] at heq
        obtain ⟨_, _, hcons⟩ := heq
        cases (List.cons.inj hcons).1
      · rfl
  | _ => cases hid

theorem ResponseLine.pushOf {line : List Char} (h : ResponseLine readNumber line) :
    AcpClient.pushOf line = none := by
  rw [AcpClient.pushOf, h.ofText, Option.bind_none]

/-- A line that is no notification answers a request, and pushes nothing. -/
theorem WellFormed.pushOf_of_not {line : List Char} (h : WellFormed readNumber line)
    (hnot : ¬ NotificationLine readNumber line) : AcpClient.pushOf line = none := by
  rcases h with hresponse | hdecodable
  · exact hresponse.pushOf
  · exact absurd hdecodable.1 hnot

/-- A response is none, so a well-formed line that is a notification decodes. -/
theorem WellFormed.decodable {line : List Char} (h : WellFormed readNumber line)
    (hnotification : NotificationLine readNumber line) : DecodableLine readNumber line := by
  rcases h with ⟨peek, hread, hid, -⟩ | hdecodable
  · obtain ⟨other, hother, hyes⟩ := hnotification
    cases hread.symm.trans hother
    rw [isNotification, Bool.and_eq_true] at hyes
    simp [Option.isNone_iff_eq_none.mp hyes.2] at hid
  · exact hdecodable

theorem classify_isSome_iff (notif : JsonRpcNotification) :
    (classify notif).isSome ↔ notif.method = Protocol.Methods.sessionMessage ∨
      notif.method = Protocol.Methods.sessionCancel := by
  unfold classify
  by_cases hmessage : notif.method = Protocol.Methods.sessionMessage
  · rw [if_pos hmessage]
    refine iff_of_true ?_ (.inl hmessage)
    split <;> rfl
  · rw [if_neg hmessage]
    by_cases hcancel : notif.method = Protocol.Methods.sessionCancel
    · rw [if_pos hcancel]
      exact iff_of_true rfl (.inr hcancel)
    · rw [if_neg hcancel]
      exact iff_of_false Bool.noConfusion (not_or.mpr ⟨hmessage, hcancel⟩)

/-- The well-formed lines that push are the messages and the cancels. -/
theorem WellFormed.pushOf_isSome_iff {line : List Char} (h : WellFormed readNumber line) :
    (AcpClient.pushOf line).isSome ↔ ∃ notif, JsonRpcNotification.ofText line = some notif ∧
      (notif.method = Protocol.Methods.sessionMessage ∨
        notif.method = Protocol.Methods.sessionCancel) := by
  rcases h with hresponse | ⟨_, notif, htext, hdecodes⟩
  · rw [hresponse.pushOf]
    refine iff_of_false Bool.noConfusion ?_
    rintro ⟨notif, htext, -⟩
    rw [hresponse.ofText] at htext
    cases htext
  · rw [AcpClient.pushOf, htext, Option.bind_some]
    simp only [Option.some.injEq, exists_eq_left', ← classify_isSome_iff]
    cases hclassify : classify notif with
    | none => rfl
    | some result =>
        cases result with
        | error e => exact absurd hclassify (hdecodes e)
        | ok push => rfl

/-! ### One call -/

variable (readNumber) in
/-- What was not returned yet is well formed, and what was set aside is notifications. -/
structure Orderly (client : AcpClient) : Prop where
  pending : ∀ buf ∈ client.pendingNotifications, DecodableLine readNumber buf
  unread : ∀ line ∈ linesOf client.reader, WellFormed readNumber line

/-- The frame that is received is the first of the upcoming ones; a response that is read here pushes
nothing. -/
theorem Orderly.recvNotification {client : AcpClient} (h : Orderly readNumber client) :
    ∃ received client', client.recvNotification = (received, client') ∧ Orderly readNumber client' ∧
      pushesOf client.upcoming =
        (received.toOption.bind fun notif => (classify notif).bind Except.toOption).toList ++
          pushesOf client'.upcoming := by
  obtain ⟨reader, pendingNotifications⟩ := client
  cases pendingNotifications with
  | cons buf pending =>
      obtain ⟨_, notif, htext, _⟩ := h.pending buf List.mem_cons_self
      refine ⟨.ok notif, ⟨reader, pending⟩, ?_, ⟨?_, h.unread⟩, ?_⟩
      · simp only [AcpClient.recvNotification, htext]
      · intro other hother
        exact h.pending other (List.mem_cons_of_mem _ hother)
      · rw [upcoming, List.cons_append, pushesOf_cons, AcpClient.pushOf, htext]
        rfl
  | nil =>
      have hpushes := pushesOf_readLine reader
      have hunread : ∀ line ∈ linesOf (readLine reader).2, WellFormed readNumber line :=
        fun line hline => h.unread line (mem_linesOf_readLine hline)
      cases hline : (readLine reader).1 with
      | nil =>
          have hread : readLine reader = ([], (readLine reader).2) := Prod.ext hline rfl
          refine ⟨.error "stdin closed while waiting for a notification", ⟨(readLine reader).2, []⟩, ?_,
            ⟨nofun, hunread⟩, ?_⟩
          · rw [AcpClient.recvNotification]
            simp only
            rw [hread]
          · rw [hline] at hpushes
            exact hpushes
      | cons c cs =>
          have hread : readLine reader = (c :: cs, (readLine reader).2) := Prod.ext hline rfl
          rw [hline, AcpClient.pushOf] at hpushes
          cases htext : JsonRpcNotification.ofText (c :: cs) with
          | none =>
              refine ⟨.error "parse notification", ⟨(readLine reader).2, []⟩, ?_, ⟨nofun, hunread⟩, ?_⟩
              · rw [AcpClient.recvNotification]
                simp only
                rw [hread]
                simp only [htext]
              · rw [htext] at hpushes
                exact hpushes
          | some notif =>
              refine ⟨.ok notif, ⟨(readLine reader).2, []⟩, ?_, ⟨nofun, hunread⟩, ?_⟩
              · rw [AcpClient.recvNotification]
                simp only
                rw [hread]
                simp only [htext]
              · rw [htext] at hpushes
                exact hpushes

/-- What `next_push` returns comes before all that it leaves, and what it ignores pushes nothing. -/
theorem Orderly.nextPushLoop {fuel : Nat} {client : AcpClient} (h : Orderly readNumber client) :
    Orderly readNumber (client.nextPushLoop fuel).2 ∧
      pushesOf client.upcoming = (client.nextPushLoop fuel).1.toOption.toList ++
        pushesOf (client.nextPushLoop fuel).2.upcoming := by
  induction fuel generalizing client with
  | zero => exact ⟨h, rfl⟩
  | succ fuel ih =>
      obtain ⟨received, client', hrecv, horderly, hpushes⟩ := h.recvNotification
      rw [AcpClient.nextPushLoop, hrecv, hpushes]
      cases received with
      | error e => exact ⟨horderly, rfl⟩
      | ok notif =>
          dsimp only [Except.toOption, Option.bind_some]
          cases classify notif with
          | some result => exact ⟨horderly, rfl⟩
          | none => exact ih horderly

/-- A frame that decodes is received if it is the first of the upcoming ones. -/
theorem recvNotification_first {client : AcpClient} {line : List Char} {lines : List (List Char)}
    {notif : JsonRpcNotification} (hupcoming : client.upcoming = line :: lines)
    (htext : JsonRpcNotification.ofText line = some notif) :
    ∃ client', client.recvNotification = (.ok notif, client') ∧ client'.upcoming = lines := by
  obtain ⟨reader, pendingNotifications⟩ := client
  cases pendingNotifications with
  | cons buf pending =>
      obtain ⟨rfl, rfl⟩ := List.cons.inj hupcoming
      refine ⟨⟨reader, pending⟩, ?_, rfl⟩
      simp only [AcpClient.recvNotification, htext]
  | nil =>
      have hlines : linesOf reader = line :: lines := hupcoming
      have hne : reader ≠ [] := by
        rintro rfl
        cases hlines
      rw [linesOf_eq_readLine hne] at hlines
      obtain ⟨hline, hrest⟩ := List.cons.inj hlines
      refine ⟨⟨(readLine reader).2, []⟩, ?_, hrest⟩
      have hread : readLine reader = (line, (readLine reader).2) := Prod.ext hline rfl
      rw [AcpClient.recvNotification]
      simp only
      rw [hread]
      cases line with
      | nil => exact absurd hline (readLine_ne_nil hne)
      | cons c cs => simp only [htext]

/-- What is ignored is passed over, and the first push behind it is returned. -/
theorem nextPushLoop_first {fuel : Nat} {client : AcpClient} {before after : List (List Char)} {line : List Char}
    {push : NextPush} (hfuel : before.length < fuel) (hupcoming : client.upcoming = before ++ line :: after)
    (hbefore : ∀ l ∈ before, ∃ notif, JsonRpcNotification.ofText l = some notif ∧ classify notif = none)
    (hpush : pushOf line = some push) : (client.nextPushLoop fuel).1 = .ok push := by
  induction before generalizing fuel client with
  | nil =>
      obtain ⟨fuel, rfl⟩ := Nat.exists_eq_add_of_lt hfuel
      obtain ⟨notif, htext, hclassify⟩ := Option.bind_eq_some_iff.mp hpush
      obtain ⟨result, hresult, hok⟩ := Option.bind_eq_some_iff.mp hclassify
      obtain ⟨client', hrecv, -⟩ := recvNotification_first hupcoming htext
      rw [AcpClient.nextPushLoop, hrecv]
      dsimp only
      rw [hresult]
      cases result with
      | error e => cases hok
      | ok push' => rw [← Option.some.inj hok]
  | cons l before ih =>
      obtain ⟨fuel, rfl⟩ := Nat.exists_eq_add_of_lt hfuel
      obtain ⟨⟨notif, htext, hignored⟩, hbefore⟩ := List.forall_mem_cons.mp hbefore
      obtain ⟨client', hrecv, hrest⟩ := recvNotification_first hupcoming htext
      rw [AcpClient.nextPushLoop, hrecv]
      dsimp only
      rw [hignored]
      exact ih (by rw [List.length_cons]; omega) hrest hbefore

theorem length_linesOf_le (cs : List Char) : (linesOf cs).length ≤ cs.length := by
  induction cs with
  | nil => exact Nat.le_refl _
  | cons c cs ih =>
      rw [linesOf]
      split
      · exact Nat.succ_le_succ ih
      · split
        · exact Nat.succ_le_succ (Nat.zero_le _)
        · rename_i hlines
          rw [hlines] at ih
          exact Nat.le_succ_of_le ih

/-- The first push set aside or unread is the next one, where what comes before it is ignored. -/
theorem Orderly.nextPush_first {client : AcpClient} (h : Orderly readNumber client)
    {before after : List (List Char)} {line : List Char} {push : NextPush}
    (hupcoming : client.upcoming = before ++ line :: after)
    (hbefore : ∀ l ∈ before, NotificationLine readNumber l ∧ pushOf l = none) (hpush : pushOf line = some push) :
    client.nextPush.1 = .ok push := by
  refine nextPushLoop_first ?_ hupcoming ?_ hpush
  · have hlength := congrArg List.length hupcoming
    have hlines := length_linesOf_le client.reader
    rw [upcoming, List.length_append, List.length_append, List.length_cons] at hlength
    rw [remaining]
    omega
  · intro l hl
    obtain ⟨hnotification, hnone⟩ := hbefore l hl
    have hmem : l ∈ client.upcoming := by
      rw [hupcoming]
      exact List.mem_append_left _ hl
    obtain ⟨-, notif, htext, hdecodes⟩ : DecodableLine readNumber l := by
      rcases List.mem_append.mp hmem with hpending | hunread
      · exact h.pending l hpending
      · exact (h.unread l hunread).decodable hnotification
    refine ⟨notif, htext, ?_⟩
    rw [pushOf, htext, Option.bind_some] at hnone
    cases hclassify : classify notif with
    | none => rfl
    | some result =>
        cases result with
        | error e => exact absurd hclassify (hdecodes e)
        | ok push' =>
            rw [hclassify] at hnone
            cases hnone

/-- A request sets the notifications it reads aside behind the older ones, and the line that ends its
wait pushes nothing. -/
theorem Orderly.call {c : Connection} (h : Orderly readNumber c.client) (request : Request)
    (written : Written) :
    Orderly readNumber (c.call readNumber request written).2.client ∧
      pushesOf c.client.upcoming = pushesOf (c.call readNumber request written).2.client.upcoming := by
  cases written with
  | refused => exact ⟨h, rfl⟩
  | unflushed e => exact ⟨h, rfl⟩
  | flushed =>
      obtain ⟨n, line, ⟨hbefore, hline, hstop⟩, hcall⟩ := @Connection.call_flushed readNumber c request
      rw [hcall]
      have hlast : AcpClient.pushOf (readLine (readLines n c.client.reader).2).1 = none := by
        rcases readLine_mem_linesOf (readLines n c.client.reader).2 with hmem | hnil
        · rw [hline] at hmem ⊢
          exact (h.unread line (mem_linesOf_readLines hmem)).pushOf_of_not hstop
        · rw [hnil, pushOf_nil]
      constructor
      · refine ⟨?_, fun line hline => h.unread line (mem_linesOf_readLines hline)⟩
        intro buf hbuf
        rcases List.mem_append.mp hbuf with hold | hnew
        · exact h.pending buf hold
        · rcases readLines_subset_linesOf hnew with hmem | hnil
          · exact (h.unread buf hmem).decodable (hbefore buf hnew)
          · obtain ⟨peek, hread, -⟩ := hbefore buf hnew
            rw [hnil, Json.read_nil] at hread
            cases hread
      · rw [upcoming, upcoming, pushesOf_append, pushesOf_append, pushesOf_append, List.append_assoc,
          pushesOf_readLines n, pushesOf_readLine (readLines n c.client.reader).2, hlast, readLines_add]
        rfl

end AcpClient

/-! ### Every order of calls -/

/-- A connection, and the pushes that `next_push` has returned on it, oldest first. -/
structure PushLog where
  connection : Connection
  pushes : List NextPush

namespace PushLog

variable (readNumber : Json.Number → Option Json.Number)

/-- What the event returned to the loop as a push. -/
def returned (c : Connection) : Connection.Event → List NextPush
  | .nextPush => c.client.nextPush.1.toOption.toList
  | .request _ _ => []
  | .notify _ => []

def step (s : PushLog) (e : Connection.Event) : Option PushLog :=
  (s.connection.step readNumber e).map fun c => ⟨c, s.pushes ++ returned s.connection e⟩

def system (reader : List Char) (requestId : Nat) : Transition.System PushLog Connection.Event where
  init := ⟨(Connection.system readNumber reader requestId).init, []⟩
  step := step readNumber

variable {readNumber}

/-- One event moves pushes from those to come to those returned, at most one and the first. -/
theorem step_pushes {s t : PushLog} {e : Connection.Event} (hstep : step readNumber s e = some t)
    (h : AcpClient.Orderly readNumber s.connection.client) :
    AcpClient.Orderly readNumber t.connection.client ∧
      t.pushes ++ AcpClient.pushesOf t.connection.client.upcoming =
        s.pushes ++ AcpClient.pushesOf s.connection.client.upcoming := by
  cases e with
  | request request written =>
      obtain ⟨horderly, hpushes⟩ := h.call request written
      cases hstep
      exact ⟨horderly, by rw [hpushes, returned, List.append_nil]⟩
  | notify written =>
      cases hstep
      exact ⟨h, by rw [returned, List.append_nil]⟩
  | nextPush =>
      obtain ⟨horderly, hpushes⟩ := @AcpClient.Orderly.nextPushLoop readNumber
        (s.connection.client.remaining + 1) s.connection.client h
      cases hstep
      exact ⟨horderly, by rw [hpushes, List.append_assoc]; rfl⟩

/-- In every order of requests and of calls of `next_push`, what `next_push` has returned so far is a
beginning of the pushes of the input, in the order they arrived, and those it has not returned are all
still to come; the pushes of the input are its messages and cancels. The next call returns the first of those to come,
unless a response stands before it. -/
theorem pushes_in_order {reader : List Char} {requestId : Nat} {events : List Connection.Event}
    {s : PushLog} (hlines : ∀ line ∈ linesOf reader, AcpClient.WellFormed readNumber line)
    (hrun : (system readNumber reader requestId).run (system readNumber reader requestId).init events = some s) :
    s.pushes <+: AcpClient.pushesOf (linesOf reader) ∧
      s.pushes ++ AcpClient.pushesOf s.connection.client.upcoming = AcpClient.pushesOf (linesOf reader) ∧
      (∀ line ∈ linesOf reader, (AcpClient.pushOf line).isSome ↔
        ∃ notif, JsonRpcNotification.ofText line = some notif ∧
          (notif.method = Protocol.Methods.sessionMessage ∨
            notif.method = Protocol.Methods.sessionCancel)) ∧
      ∀ before line after push, s.connection.client.upcoming = before ++ line :: after →
        (∀ l ∈ before, AcpClient.NotificationLine readNumber l ∧ AcpClient.pushOf l = none) →
          AcpClient.pushOf line = some push → s.connection.client.nextPush.1 = .ok push := by
  have hinvariant := (system readNumber reader requestId).run_invariant
    (I := fun s => AcpClient.Orderly readNumber s.connection.client ∧
      s.pushes ++ AcpClient.pushesOf s.connection.client.upcoming = AcpClient.pushesOf (linesOf reader))
    (fun s e t hstep hs => by
      obtain ⟨horderly, hpushes⟩ := step_pushes hstep hs.1
      exact ⟨horderly, hpushes.trans hs.2⟩)
    hrun ⟨⟨nofun, hlines⟩, rfl⟩
  exact ⟨⟨_, hinvariant.2⟩, hinvariant.2, fun line hline => (hlines line hline).pushOf_isSome_iff,
    fun _ _ _ _ hupcoming hbefore hpush => hinvariant.1.nextPush_first hupcoming hbefore hpush⟩

/-- A cancel, as it is put on a line. -/
def cancelFrame : Json := .object [("method", .string "session/cancel")]

theorem isNumber_one : Json.isNumber ['1'] = true := by decide

/-- A cancel that arrives before the response a request waits for. -/
def interrupted : List Char :=
  cancelFrame.print ++ '\n' :: ((Connection.oneResponse ⟨['1'], isNumber_one⟩ "tools").print ++ ['\n'])

theorem linesOf_interrupted : linesOf interrupted =
    [cancelFrame.print ++ ['\n'], (Connection.oneResponse ⟨['1'], isNumber_one⟩ "tools").print ++ ['\n']] := by
  rw [interrupted, linesOf_append_newline (Json.newline_notMem_print _),
    linesOf_append_newline (Json.newline_notMem_print _)]
  rfl

theorem wellFormed_interrupted :
    ∀ line ∈ linesOf interrupted, AcpClient.WellFormed some line := by
  have hread : ∀ frame : Json, frame.nesting ≤ Json.maxNesting →
      Json.read some (frame.print ++ ['\n']) = some frame.collapse := by
    intro frame hnesting
    rw [Json.read_print frame (List.forall_mem_singleton.mpr rfl), if_pos ⟨hnesting, Json.inRange_some _⟩,
      Json.asRead_some]
  intro line hline
  rw [linesOf_interrupted] at hline
  simp only [List.mem_cons, List.not_mem_nil, or_false] at hline
  rcases hline with rfl | rfl
  · have hcancel : ((JsonRpcNotification.ofText (cancelFrame.print ++ ['\n'])).any fun notif =>
        notif.method = Protocol.Methods.sessionCancel) = true := by decide +kernel
    obtain ⟨notif, htext, hmethod⟩ := (Option.any_eq_true _ _).mp hcancel
    refine .inr ⟨⟨_, hread cancelFrame (by decide), rfl⟩, notif, htext, fun e => ?_⟩
    rw [AcpClient.classify, of_decide_eq_true hmethod]
    simp [Protocol.Methods.sessionMessage, Protocol.Methods.sessionCancel]
  · exact .inl ⟨_, hread _ (by decide), rfl, rfl⟩

/-- The cancel is set aside by the request and returned after it. -/
theorem interrupted_in_order :
    ∃ s, (system some interrupted 1).run (system some interrupted 1).init
        [.request .toolsList .flushed, .nextPush] = some s ∧
      s.pushes = [.cancel] ∧ AcpClient.pushesOf (linesOf interrupted) = [.cancel] := by
  have hreturned : ((system some interrupted 1).run (system some interrupted 1).init
      [.request .toolsList .flushed, .nextPush]).map (fun s => s.pushes.map fun push => push matches .cancel) =
        some [true] ∧ ((AcpClient.pushesOf (linesOf interrupted)).length = 1) := by
    decide +kernel
  obtain ⟨s, hrun, hpushes⟩ := Option.map_eq_some_iff.mp hreturned.1
  obtain ⟨push, hpush, hcancel⟩ := List.map_eq_singleton_iff.mp hpushes
  have hone : push = .cancel := by
    cases push with
    | cancel => rfl
    | message message => cases hcancel
  obtain ⟨more, hmore⟩ := (pushes_in_order wellFormed_interrupted hrun).1
  have hlength := congrArg List.length hmore
  rw [List.length_append, hpush, List.length_singleton, hreturned.2] at hlength
  have hnil : more = [] := List.length_eq_zero_iff.mp (by omega)
  rw [hnil, List.append_nil, hpush, hone] at hmore
  exact ⟨s, hrun, by rw [hpush, hone], hmore.symm⟩

end PushLog

end Overacp

import Psign.Rest.Codesigning

/-!
# Runs of the signing operation

What holds of every run of `submitCodesignHashBlocking`, whatever the service
replies.  Obtaining the token never sends it (`acquireCodesigningToken_only`);
after that the run is at most one submit and at most 90 equal polls
(`pollRounds_ensures`), and its result was reported by one of them
(`submit_codesign_hash_protocol`).

The service names the URL that is polled.  A relative location is put behind the
configured base URL and stays on its origin (`originOf_append`).  An absolute
one is polled as it is, with the token: this is the one way a request with the
token leaves the configured origin.  A result reports that the operation succeeded as
long as the response to the submit names an operation to poll or reports this itself
(`TellsOutcome`).
-/

namespace Psign.Rest

open CodeLib CodeLib.RustStr CodeLib.Subslice

/-! ## Requests with the token -/

/-- The request carries the bearer token. -/
def CarriesBearer (request : HttpRequest) : Prop :=
  ∃ field ∈ request.headers, field.1 = "Authorization".toList

instance (request : HttpRequest) : Decidable (CarriesBearer request) :=
  inferInstanceAs (Decidable (∃ field ∈ request.headers, _))

/-- A submit: a `POST` with the token. -/
def IsSubmit (request : HttpRequest) : Prop :=
  request.method = .post ∧ CarriesBearer request

/-- A poll: a `GET` with the token. -/
def IsPoll (request : HttpRequest) : Prop :=
  request.method = .get ∧ CarriesBearer request

instance (request : HttpRequest) : Decidable (IsSubmit request) :=
  inferInstanceAs (Decidable (_ ∧ _))

instance (request : HttpRequest) : Decidable (IsPoll request) :=
  inferInstanceAs (Decidable (_ ∧ _))

/-- Scheme and authority of a URL. -/
def originOf (url : List Char) : Option (List Char × List Char) :=
  match firstAt? "://".toList url with
  | none => none
  | some i =>
      let authority := (url.drop (i + 3)).takeWhile fun c => !"/\\?#".toList.contains c
      if authority = [] then none else some (url.take i, authority)

/-- A URL is a path under the base URL, on the origin of the base URL. -/
def AddressedTo (base url : List Char) : Prop :=
  (∃ path, url = base ++ '/' :: path) ∧
    ∀ origin, originOf base = some origin → originOf url = some origin

/-- An exchange: a request with the reply to it. -/
abbrev Exchange := HttpRequest × Reply

/-- The request polls the absolute URL that the response to the submit named. -/
def PollsNamedUrl (trace : List Exchange) (request : HttpRequest) : Prop :=
  IsPoll request ∧ ∃ x ∈ trace, IsSubmit x.1 ∧ ∃ rsp loc, x.2 = .ok rsp ∧ rsp.isSuccess ∧
    rsp.opLocation = some loc ∧ IsAbsolute (trim loc) ∧ request.url = trim loc

variable (web : WebStack) (env : Environment)

/-- The exchange is a poll whose response reported that the operation
succeeded, with this body. -/
def ReportedSucceeded (x : Exchange) (v : Value) : Prop :=
  IsPoll x.1 ∧ ∃ rsp bytes, x.2 = .ok rsp ∧ rsp.isSuccess ∧ rsp.bytes = .ok bytes ∧
    web.fromSlice bytes = .ok v ∧ statusOf v = "Succeeded".toList

/-- The exchange is a submit that was answered at once with this body, without a location. -/
def AnsweredAtOnce (x : Exchange) (v : Value) : Prop :=
  IsSubmit x.1 ∧ ∃ rsp, x.2 = .ok rsp ∧ rsp.isSuccess ∧ acceptJsonOf web rsp = .ok v ∧
    rsp.opLocation = none

/-- A success response of the exchange names an operation to poll, or reports that the operation
succeeded. -/
def TellsOutcome (x : Exchange) : Prop :=
  ∀ rsp v, x.2 = .ok rsp → acceptJsonOf web rsp = .ok v →
    rsp.opLocation ≠ none ∨ operationId v ≠ none ∨ statusOf v = "Succeeded".toList

/-! ## The origin of a URL -/

theorem takeWhile_append_cons_of_not {p : Char → Bool} {c : Char} (hc : p c = false)
    (before rest : List Char) : (before ++ c :: rest).takeWhile p = before.takeWhile p := by
  induction before with
  | nil => simp [hc]
  | cons d before ih =>
    rw [List.cons_append, List.takeWhile_cons, List.takeWhile_cons, ih]

/-- A path behind a URL keeps its origin. -/
theorem originOf_append {base : List Char} {origin : List Char × List Char} (path : List Char)
    (h : originOf base = some origin) : originOf (base ++ '/' :: path) = some origin := by
  unfold originOf at h ⊢
  split at h
  · cases h
  · rename_i i hfirst
    have hlen : i + 3 ≤ base.length := firstAt?_add_length_le hfirst
    have hsame : base.take (i + 3) = (base ++ '/' :: path).take (i + 3) := by
      rw [List.take_append_of_le_length hlen]
    rw [firstAt?_of_take_eq hfirst (Nat.le_refl _) hsame]
    simp only
    rw [List.drop_append_of_le_length hlen, takeWhile_append_cons_of_not (by decide),
      List.take_append_of_le_length (Nat.le_of_add_right_le hlen)]
    exact h

theorem addressedTo_append (base path : List Char) : AddressedTo base (base ++ '/' :: path) :=
  ⟨⟨path, rfl⟩, fun _ h => originOf_append path h⟩

theorem addressedTo_profileUrl (params : CodesigningSubmitParams) (rest : List Char) :
    AddressedTo (dataPlaneBaseUrl params) (profileUrl params ++ rest) := by
  have hshape : profileUrl params ++ rest = dataPlaneBaseUrl params ++ '/' ::
      ("codesigningaccounts/".toList ++ trim params.accountName ++
        "/certificateprofiles/".toList ++ trim params.profileName ++ rest) := by
    simp [profileUrl, List.append_assoc]
  rw [hshape]
  exact addressedTo_append _ _

theorem rdropWhile_dataPlaneBaseUrl (params : CodesigningSubmitParams) :
    (dataPlaneBaseUrl params).rdropWhile (· == '/') = dataPlaneBaseUrl params := by
  have hdefault : ("https://".toList ++ trim params.region ++
      ".codesigning.azure.net".toList).rdropWhile (· == '/') =
      "https://".toList ++ trim params.region ++ ".codesigning.azure.net".toList := by
    refine rdropWhile_of_getLast fun c hc => ?_
    rw [List.getLast?_append_of_ne_nil _ (by decide)] at hc
    obtain rfl : 't' = c := by simpa using hc
    rfl
  unfold dataPlaneBaseUrl
  split
  · rename_i u hu
    simp only
    split
    · exact List.rdropWhile_idempotent _ _
    · exact hdefault
  · exact hdefault

/-- A location that is not absolute is a path under the base URL. -/
theorem addressedTo_operationLocationUrl {params : CodesigningSubmitParams} {loc : List Char}
    (h : ¬ IsAbsolute (trim loc)) :
    AddressedTo (dataPlaneBaseUrl params) (operationLocationUrl (dataPlaneBaseUrl params) loc) := by
  unfold operationLocationUrl
  rw [if_neg h, rdropWhile_dataPlaneBaseUrl]
  split
  · rename_i hslash
    obtain ⟨path, hpath⟩ := List.head?_eq_some_iff.mp hslash
    rw [hpath]
    exact addressedTo_append _ _
  · exact addressedTo_append _ _

/-! ## Obtaining the token -/

theorem send_only {request : HttpRequest} {P : Exchange → Prop} (context : String)
    (h : ∀ reply, P (request, reply)) : (send request context).Only P :=
  (Interaction.only_send h).bind fun _ => Interaction.only_lift

theorem tokenFrom_only (rsp : HttpResponse) (httpText jsonText : String)
    (P : Exchange → Prop) : (tokenFrom web rsp httpText jsonText).Only P :=
  Interaction.only_lift.bind fun _ => Interaction.only_lift.bind fun _ => Interaction.only_lift

/-- The exchange does not carry the token. -/
def WithoutToken (x : Exchange) : Prop :=
  ¬ CarriesBearer x.1

theorem acquireManagedIdentityToken_only (clientId resourceId : Option (List Char)) :
    (acquireManagedIdentityToken web env clientId resourceId).Only WithoutToken := by
  refine Interaction.Only.bind (send_only _ fun reply => ?_) fun rsp => tokenFrom_only web rsp _ _ _
  show ¬ ∃ field ∈ [("Metadata".toList, "true".toList)], field.1 = "Authorization".toList
  decide

theorem withoutToken_of_headers {request : HttpRequest} (h : request.headers = []) (reply : Reply) :
    WithoutToken (request, reply) := by
  intro ⟨field, hfield, _⟩
  rw [h] at hfield
  cases hfield

theorem acquireClientCredentialsToken_only (authority : Option (List Char))
    (tenantId clientId clientSecret : List Char) :
    (acquireClientCredentialsToken web authority tenantId clientId clientSecret).Only
      WithoutToken := by
  refine Interaction.only_lift.bind fun _ => Interaction.Only.bind ?_
    fun rsp => tokenFrom_only web rsp _ _ _
  exact send_only _ (withoutToken_of_headers rfl)

theorem acquireWorkloadIdentityToken_only (authority : Option (List Char))
    (tenantId clientId federatedTokenFile : List Char) :
    (acquireWorkloadIdentityToken web env authority tenantId clientId federatedTokenFile).Only
      WithoutToken := by
  refine Interaction.only_lift.bind fun _ => Interaction.only_lift.bind fun _ =>
    Interaction.Only.bind ?_ fun rsp => tokenFrom_only web rsp _ _ _
  exact send_only _ (withoutToken_of_headers rfl)

theorem tryCredentials_only {credentials : List (String × Option (Session (List Char)))}
    (h : ∀ credential ∈ credentials, ∀ acquire ∈ credential.2, acquire.Only WithoutToken)
    (errors : List String) : (tryCredentials credentials errors).Only WithoutToken := by
  induction credentials generalizing errors with
  | nil => cases errors <;> exact Interaction.only_lift
  | cons credential rest ih =>
    have hrest := ih fun c hc => h c (List.mem_cons_of_mem _ hc)
    obtain ⟨name, acquire⟩ := credential
    cases acquire with
    | none => exact hrest errors
    | some acquire =>
      refine (h _ List.mem_cons_self acquire rfl).attempt.bind fun result => ?_
      cases result with
      | ok token => exact Interaction.only_lift
      | error failure => exact hrest _

theorem defaultCredentials_only (authority : Option (List Char))
    (excludeCredentials : List (List Char)) :
    ∀ credential ∈ defaultCredentials web env authority excludeCredentials,
      ∀ acquire ∈ credential.2, acquire.Only WithoutToken := by
  intro credential hcredential acquire hacquire
  simp only [defaultCredentials, List.mem_cons, List.not_mem_nil, or_false] at hcredential
  rcases hcredential with rfl | rfl | rfl
  · simp only [Option.mem_def, Option.ite_none_left_eq_some, bind, Option.bind_eq_some_iff,
      pure, Option.some.injEq] at hacquire
    obtain ⟨_, tenant, _, client, _, secret, _, rfl⟩ := hacquire
    exact acquireClientCredentialsToken_only web authority tenant client secret
  · simp only [Option.mem_def, Option.ite_none_left_eq_some, bind, Option.bind_eq_some_iff,
      pure, Option.some.injEq] at hacquire
    obtain ⟨_, tenant, _, client, _, tokenFile, _, rfl⟩ := hacquire
    exact acquireWorkloadIdentityToken_only web env authority tenant client tokenFile
  · simp only [Option.mem_def, Option.ite_none_left_eq_some, Option.some.injEq] at hacquire
    obtain ⟨_, rfl⟩ := hacquire
    exact acquireManagedIdentityToken_only web env _ _

/-- No request on the way to the token carries it. -/
theorem acquireCodesigningToken_only (auth : CodesigningAuth) (authority : Option (List Char)) :
    (acquireCodesigningToken web env auth authority).Only WithoutToken := by
  cases auth with
  | bearer tok => exact Interaction.only_lift.bind fun _ => Interaction.only_lift
  | managedIdentity clientId resourceId => exact acquireManagedIdentityToken_only web env _ _
  | clientCredentials tenantId clientId clientSecret =>
    exact acquireClientCredentialsToken_only web authority _ _ _
  | workloadIdentity tenantId clientId federatedTokenFile =>
    exact acquireWorkloadIdentityToken_only web env authority _ _ _
  | defaultChain excludeCredentials =>
    exact tryCredentials_only (defaultCredentials_only web env authority excludeCredentials) []

/-! ## The polls -/

/-- A request in front of a session. -/
theorem ensures_send_bind {α : Type} {request : HttpRequest} {context : String}
    {next : HttpResponse → Session α} {post : List Exchange → Outcome α → Prop} :
    (send request context >>= next).Ensures post ↔ ∀ reply,
      (∀ rsp, reply = .ok rsp →
        (next rsp).Ensures fun trace result => post ((request, reply) :: trace) result) ∧
      ∀ failure, Outcome.context reply context = .error failure →
        post [(request, reply)] (.error failure) := by
  rw [Interaction.ensures_bind, send, Interaction.ensures_send_bind]
  refine forall_congr' fun reply => ?_
  rw [Interaction.ensures_lift]
  rcases reply with (message | _) | rsp
  · simp [Outcome.context, Outcome.mapErr, Outcome.bail]
  · simp [Outcome.context, Outcome.mapErr]
  · simp [Outcome.context, Outcome.mapErr]

/-- What one round of polling after the other can do. -/
def PollsOnly (rounds : Nat) (request : HttpRequest) (trace : List Exchange)
    (result : Outcome Value) : Prop :=
  trace.length ≤ rounds ∧ (∀ x ∈ trace, x.1 = request) ∧
    ∀ v, result = .ok v → ∃ x ∈ trace, ReportedSucceeded web x v

theorem pollsOnly_error {rounds : Nat} {request : HttpRequest} {trace : List Exchange}
    {failure : Failure} (hlen : trace.length ≤ rounds) (hall : ∀ x ∈ trace, x.1 = request) :
    PollsOnly web rounds request trace (.error failure) :=
  ⟨hlen, hall, fun _ h => absurd h (by simp)⟩

theorem PollsOnly.cons {rounds : Nat} {request : HttpRequest} {reply : Reply}
    {trace : List Exchange} {result : Outcome Value}
    (h : PollsOnly web rounds request trace result) :
    PollsOnly web (rounds + 1) request ((request, reply) :: trace) result := by
  obtain ⟨hlen, hall, hresult⟩ := h
  refine ⟨Nat.succ_le_succ hlen, ?_, fun v hv => ?_⟩
  · intro x hx
    rcases List.mem_cons.mp hx with rfl | hx
    · rfl
    · exact hall x hx
  · obtain ⟨x, hx, hreported⟩ := hresult v hv
    exact ⟨x, List.mem_cons_of_mem _ hx, hreported⟩

theorem isPoll_pollRequest (token pollUrl : List Char) : IsPoll (pollRequest token pollUrl) :=
  ⟨rfl, authorization token, List.mem_cons_self, rfl⟩

/-- Polling sends the one request, at most once a round, and returns only what a
response reported as succeeded. -/
theorem pollRounds_ensures (token pollUrl : List Char) (rounds : Nat) :
    (pollRounds web token pollUrl rounds).Ensures
      (PollsOnly web rounds (pollRequest token pollUrl)) := by
  induction rounds with
  | zero => exact pollsOnly_error web (Nat.le_refl _) (by simp)
  | succ rounds ih =>
    have hstop : ∀ reply failure, PollsOnly web (rounds + 1) (pollRequest token pollUrl)
        [(pollRequest token pollUrl, reply)] (.error failure) := by
      intro reply failure
      exact pollsOnly_error web (by simp) (by simp)
    rw [pollRounds, ensures_send_bind]
    intro reply
    refine ⟨fun rsp hrsp => ?_, fun failure _ => hstop reply failure⟩
    rw [Interaction.ensures_lift_bind]
    refine ⟨fun _ hsuccess => ?_, fun failure _ => hstop reply failure⟩
    rw [Interaction.ensures_lift_bind]
    refine ⟨fun bytes hbytes => ?_, fun failure _ => hstop reply failure⟩
    rw [Interaction.ensures_lift_bind]
    refine ⟨fun v hv => ?_, fun failure _ => hstop reply failure⟩
    by_cases hsucceeded : statusOf v = "Succeeded".toList
    · rw [if_pos hsucceeded]
      refine ⟨by simp, by simp, fun v' hv' => ⟨_, List.mem_singleton_self _, ?_⟩⟩
      obtain rfl := Except.ok.inj hv'
      exact ⟨isPoll_pollRequest token pollUrl, rsp, bytes, hrsp, Outcome.guardThat_eq_ok.mp hsuccess,
        Outcome.mapErr_eq_ok.mp hbytes, Outcome.mapErr_eq_ok.mp hv, hsucceeded⟩
    · rw [if_neg hsucceeded]
      split
      · exact hstop reply _
      · split
        · exact hstop reply _
        · exact ih.mono fun trace result h => h.cons web

/-! ## The whole operation -/

/-- What the run behind the token is. -/
def OperationOnly (params : CodesigningSubmitParams) (token : List Char) (trace : List Exchange)
    (result : Outcome Value) : Prop :=
  ∃ reply polls pollUrl, trace = (submitRequest web params token, reply) :: polls ∧
    polls.length ≤ 90 ∧ (∀ x ∈ polls, x.1 = pollRequest token pollUrl) ∧
    (polls ≠ [] → AddressedTo (dataPlaneBaseUrl params) pollUrl ∨
      ∃ rsp loc, reply = .ok rsp ∧ rsp.isSuccess ∧ rsp.opLocation = some loc ∧
        IsAbsolute (trim loc) ∧ pollUrl = trim loc) ∧
    ∀ v, result = .ok v → (∃ x ∈ polls, ReportedSucceeded web x v) ∨
      ∃ rsp, reply = .ok rsp ∧ rsp.isSuccess ∧ acceptJsonOf web rsp = .ok v ∧
        rsp.opLocation = none ∧ (statusOf v = "Succeeded".toList ∨ operationId v = none)

/-- The operation once the token is there. -/
def submitWithToken (params : CodesigningSubmitParams) (token : List Char) : Session Value := do
  let rsp ← send (submitRequest web params token) "codesign :sign POST"
  let acceptJson ← Interaction.lift (acceptJsonOf web rsp)
  match acceptedOf params rsp.opLocation acceptJson with
  | .final body => return body
  | .poll pollUrl => pollOperation web token pollUrl

theorem isSuccess_of_acceptJsonOf {rsp : HttpResponse} {v : Value}
    (h : acceptJsonOf web rsp = .ok v) : rsp.isSuccess := by
  obtain ⟨_, _, h⟩ := Outcome.bind_eq_ok.mp h
  exact (Outcome.guardThat_bind_eq_ok.mp h).1

theorem acceptedOf_eq_final {params : CodesigningSubmitParams} {opLocation : Option (List Char)}
    {v body : Value} (h : acceptedOf params opLocation v = .final body) :
    body = v ∧ opLocation = none ∧ (statusOf v = "Succeeded".toList ∨ operationId v = none) := by
  unfold acceptedOf at h
  split at h
  · cases h
  · split at h
    · rename_i hstatus
      obtain rfl := Accepted.final.inj h
      refine ⟨rfl, rfl, Or.inl ?_⟩
      rw [statusOf, hstatus, Option.getD_some]
    · split at h
      · cases h
      · rename_i hid
        obtain rfl := Accepted.final.inj h
        exact ⟨rfl, rfl, Or.inr hid⟩

theorem acceptedOf_eq_poll {params : CodesigningSubmitParams} {opLocation : Option (List Char)}
    {v : Value} {pollUrl : List Char} (h : acceptedOf params opLocation v = .poll pollUrl) :
    AddressedTo (dataPlaneBaseUrl params) pollUrl ∨
      ∃ loc, opLocation = some loc ∧ IsAbsolute (trim loc) ∧ pollUrl = trim loc := by
  unfold acceptedOf at h
  split at h
  · rename_i loc
    obtain rfl := Accepted.poll.inj h
    by_cases habsolute : IsAbsolute (trim loc)
    · exact Or.inr ⟨loc, rfl, habsolute, if_pos habsolute⟩
    · exact Or.inl (addressedTo_operationLocationUrl habsolute)
  · split at h
    · cases h
    · split at h
      · obtain rfl := Accepted.poll.inj h
        left
        rw [List.append_assoc, List.append_assoc, List.append_assoc]
        exact addressedTo_profileUrl params _
      · cases h

theorem submitWithToken_ensures (params : CodesigningSubmitParams) (token : List Char) :
    (submitWithToken web params token).Ensures (OperationOnly web params token) := by
  have hstop : ∀ reply failure, OperationOnly web params token
      [(submitRequest web params token, reply)] (.error failure) := by
    intro reply failure
    exact ⟨reply, [], [], rfl, by simp, by simp, by simp, by simp⟩
  rw [submitWithToken, ensures_send_bind]
  intro reply
  refine ⟨fun rsp hrsp => ?_, fun failure _ => hstop reply failure⟩
  rw [Interaction.ensures_lift_bind]
  refine ⟨fun v hv => ?_, fun failure _ => hstop reply failure⟩
  cases haccepted : acceptedOf params rsp.opLocation v with
  | final body =>
    obtain ⟨rfl, hlocation, hstatus⟩ := acceptedOf_eq_final haccepted
    refine ⟨reply, [], [], rfl, by simp, by simp, by simp, fun v' hv' => Or.inr ?_⟩
    obtain rfl := Except.ok.inj hv'
    exact ⟨rsp, hrsp, isSuccess_of_acceptJsonOf web hv, hv, hlocation, hstatus⟩
  | poll pollUrl =>
    refine (pollRounds_ensures web token pollUrl 90).mono fun trace result hpolls => ?_
    obtain ⟨hlen, hall, hresult⟩ := hpolls
    refine ⟨reply, trace, pollUrl, rfl, hlen, hall, fun _ => ?_, fun v' hv' => ?_⟩
    · rcases acceptedOf_eq_poll haccepted with haddressed | ⟨loc, hloc, habsolute, hurl⟩
      · exact Or.inl haddressed
      · exact Or.inr ⟨rsp, loc, hrsp, isSuccess_of_acceptJsonOf web hv, hloc, habsolute, hurl⟩
    · exact Or.inl (hresult v' hv')

/-- What a run of the whole operation is: requests without the token, and behind
them the submit with its polls once there is a token. -/
def RunOnly (params : CodesigningSubmitParams) (trace : List Exchange)
    (result : Outcome Value) : Prop :=
  ∃ before operation, trace = before ++ operation ∧ (∀ x ∈ before, WithoutToken x) ∧
    ((operation = [] ∧ ∀ v, result ≠ .ok v) ∨
      ∃ token, OperationOnly web params token operation result)

theorem submitCodesignHashBlocking_ensures (params : CodesigningSubmitParams) :
    (submitCodesignHashBlocking web env params).Ensures (RunOnly web params) := by
  show (Interaction.lift _ >>= fun _ => acquireCodesigningToken web env params.auth
    params.authority >>= submitWithToken web params).Ensures _
  rw [Interaction.ensures_lift_bind]
  constructor
  · intro _ _
    rw [Interaction.ensures_bind]
    refine (acquireCodesigningToken_only web env params.auth params.authority).mono
      fun before token hbefore => ?_
    cases token with
    | error failure =>
      exact ⟨before, [], (List.append_nil _).symm, hbefore, Or.inl ⟨rfl, by simp⟩⟩
    | ok token =>
      refine (submitWithToken_ensures web params token).mono fun operation result h => ?_
      exact ⟨before, operation, rfl, hbefore, Or.inr ⟨token, h⟩⟩
  · intro failure _
    exact ⟨[], [], rfl, by simp, Or.inl ⟨rfl, by simp⟩⟩

theorem isSubmit_submitRequest (params : CodesigningSubmitParams) (token : List Char) :
    IsSubmit (submitRequest web params token) :=
  ⟨rfl, authorization token, List.mem_cons_self, rfl⟩

theorem not_isSubmit_pollRequest (token pollUrl : List Char) :
    ¬ IsSubmit (pollRequest token pollUrl) := by
  intro h
  cases h.1

theorem not_isPoll_submitRequest (params : CodesigningSubmitParams) (token : List Char) :
    ¬ IsPoll (submitRequest web params token) := by
  intro h
  cases h.1

/-- Requests that do not carry the token are neither submits nor polls. -/
theorem countP_withoutToken {trace : List Exchange} (h : ∀ x ∈ trace, WithoutToken x) :
    trace.countP (fun x => IsSubmit x.1) = 0 ∧ trace.countP (fun x => IsPoll x.1) = 0 := by
  constructor
  · rw [List.countP_eq_zero]
    intro x hx hsubmit
    exact h x hx (of_decide_eq_true hsubmit).2
  · rw [List.countP_eq_zero]
    intro x hx hpoll
    exact h x hx (of_decide_eq_true hpoll).2

theorem countP_polls {polls : List Exchange} {token pollUrl : List Char}
    (h : ∀ x ∈ polls, x.1 = pollRequest token pollUrl) :
    polls.countP (fun x => IsSubmit x.1) = 0 := by
  rw [List.countP_eq_zero]
  intro x hx hsubmit
  have hnot := not_isSubmit_pollRequest token pollUrl
  rw [← h x hx] at hnot
  exact hnot (of_decide_eq_true hsubmit)

/-- Whatever the service replies, a run sends at most one submit and 90 polls.
A request with the token goes to the configured origin, or polls the absolute
URL that the response to the submit named.  A result was reported as succeeded by
a poll, or is the body of the submit; it reports success if the response to the submit
tells what becomes of the operation. -/
theorem submit_codesign_hash_protocol (params : CodesigningSubmitParams)
    (replies : Nat → Reply) :
    let trace := ((submitCodesignHashBlocking web env params).run replies).1
    trace.countP (fun x => IsSubmit x.1) ≤ 1 ∧ trace.countP (fun x => IsPoll x.1) ≤ 90 ∧
      (∀ x ∈ trace, CarriesBearer x.1 →
        AddressedTo (dataPlaneBaseUrl params) x.1.url ∨ PollsNamedUrl trace x.1) ∧
      ∀ v, ((submitCodesignHashBlocking web env params).run replies).2 = .ok v →
        (∃ x ∈ trace, ReportedSucceeded web x v ∨ AnsweredAtOnce web x v) ∧
        ((∀ x ∈ trace, IsSubmit x.1 → TellsOutcome web x) →
          statusOf v = "Succeeded".toList) := by
  have hrun := Interaction.run_of_ensures (submitCodesignHashBlocking_ensures web env params) replies
  revert hrun
  generalize ((submitCodesignHashBlocking web env params).run replies).2 = result
  generalize ((submitCodesignHashBlocking web env params).run replies).1 = trace
  intro ⟨before, operation, htrace, hbefore, hoperation⟩
  obtain ⟨hsubmits, hpolls⟩ := countP_withoutToken hbefore
  subst htrace
  simp only [List.countP_append, hsubmits, hpolls, Nat.zero_add]
  rcases hoperation with ⟨rfl, hfailed⟩ | ⟨token, reply, polls, pollUrl, rfl, hlen, hall, hurl, hresult⟩
  · refine ⟨Nat.zero_le _, Nat.zero_le _, fun x hx hbearer => ?_, fun v hv => absurd hv (hfailed v)⟩
    rw [List.append_nil] at hx
    exact absurd hbearer (hbefore x hx)
  · have hsubmit := isSubmit_submitRequest web params token
    have hmem : (submitRequest web params token, reply) ∈
        before ++ (submitRequest web params token, reply) :: polls := by simp
    refine ⟨?_, ?_, ?_, ?_⟩
    · rw [List.countP_cons, countP_polls hall]
      split <;> omega
    · rw [List.countP_cons_of_neg (by simp [not_isPoll_submitRequest])]
      exact (List.countP_le_length).trans hlen
    · intro x hx hbearer
      rcases List.mem_append.mp hx with hx | hx
      · exact absurd hbearer (hbefore x hx)
      · rcases List.mem_cons.mp hx with rfl | hx
        · left
          show AddressedTo _ (profileUrl params ++ _ ++ _)
          rw [List.append_assoc]
          exact addressedTo_profileUrl params _
        · rw [hall x hx]
          rcases hurl (List.ne_nil_of_mem hx) with haddressed | ⟨rsp, loc, hrsp, hsuccess, hloc,
            habsolute, hnamed⟩
          · exact Or.inl haddressed
          · exact Or.inr ⟨isPoll_pollRequest token pollUrl, _, hmem, hsubmit, rsp, loc, hrsp,
              hsuccess, hloc, habsolute, hnamed⟩
    · intro v hv
      rcases hresult v hv with ⟨x, hx, hreported⟩ | ⟨rsp, hrsp, hsuccess, hjson, hlocation, hstatus⟩
      · refine ⟨⟨x, List.mem_append_right _ (List.mem_cons_of_mem _ hx), Or.inl hreported⟩, ?_⟩
        intro _
        obtain ⟨_, _, _, _, _, _, _, hsucceeded⟩ := hreported
        exact hsucceeded
      · refine ⟨⟨_, hmem, Or.inr ⟨hsubmit, rsp, hrsp, hsuccess, hjson, hlocation⟩⟩, ?_⟩
        intro htells
        rcases htells _ hmem hsubmit rsp v hrsp hjson with hnamed | hnamed | hsucceeded
        · exact absurd hlocation hnamed
        · exact hstatus.resolve_right hnamed
        · exact hsucceeded

/-! ## A service that sends the client elsewhere -/

/-- The bytes of a response that reports a failed operation. -/
def failedBody : List UInt8 :=
  Unicode.utf8Encode "\x7b\"status\":\"Failed\"\x7d".toList

/-- A stand-in for the libraries that reads this one body. -/
def failedBodyStack : WebStack where
  fromSlice bytes :=
    if bytes = failedBody then .ok (.object [("status".toList, .string "Failed".toList)])
    else Outcome.bail "expected value at line 1 column 1"
  toText _ := []
  accessToken _ := Outcome.bail "missing field access_token"
  showStatus _ := []
  base64 := Base64Engine.standard

/-- A process without environment variables and files. -/
def bareEnvironment : Environment where
  var _ := none
  readToString _ := Outcome.bail "No such file or directory"

/-- Parameters with a token of their own and the default endpoint. -/
def westusParams : CodesigningSubmitParams where
  region := "westus2".toList
  accountName := "a".toList
  profileName := "p".toList
  digest := [1, 2, 3]
  signatureAlgorithm := "RS256".toList
  apiVersion := "2024-06-15".toList
  correlationId := none
  authority := none
  auth := .bearer "tok".toList
  endpointBaseUrl := none

/-- The first response names an operation of another host. -/
def namesOtherHost : Nat → Reply
  | 0 => .ok
      { status := 202
        headers := [("Operation-Location".toList,
          Unicode.utf8Encode "https://other.example/op".toList)]
        bytes := .ok []
        text := .ok [] }
  | _ => Outcome.bail "connection closed"

/-- The submit is answered with a failed operation that has no identifier. -/
def answersFailed (_ : Nat) : Reply :=
  .ok { status := 200, headers := [], bytes := .ok failedBody, text := .ok [] }

/-- The token is sent to the other host, and the failed operation is a
result. -/
theorem token_leaves_origin_and_failure_is_result :
    (∃ x ∈ ((submitCodesignHashBlocking failedBodyStack bareEnvironment westusParams).run
        namesOtherHost).1,
      CarriesBearer x.1 ∧ originOf x.1.url = some ("https".toList, "other.example".toList) ∧
        originOf (dataPlaneBaseUrl westusParams) =
          some ("https".toList, "westus2.codesigning.azure.net".toList)) ∧
    ((submitCodesignHashBlocking failedBodyStack bareEnvironment westusParams).run
      answersFailed).2.toOption.map statusOf = some "Failed".toList := by
  constructor
  · decide
  · decide

end Psign.Rest

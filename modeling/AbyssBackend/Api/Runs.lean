import AbyssBackend.Api.Router
import AbyssBackend.Storage.ReadBack

namespace AbyssBackend.Api

open Attachments Attempts Search Storage Streams Text

def Endpoint.isPublic : Endpoint → Bool
  | .root => true
  | .health => true
  | .ready => true
  | _ => false

section Access

variable [Sha256]

/-- The headers bear the deployment's token. -/
def AppState.Admits (state : AppState) (headers : HeaderMap) : Prop :=
  ∃ token, Bears headers token ∧ Sha256.digest token = state.identity.tokenHash

/-- A request is for a handler, and bears the token unless the handler is public. -/
def AppState.Allows [Extractors] (state : AppState) (request : HttpRequest) : Prop :=
  ∃ endpoint, router request = .ok endpoint ∧ (endpoint.isPublic = true ∨ state.Admits request.headers)

variable {state : AppState} {headers : HeaderMap} {request : HttpRequest}

theorem authenticate_iff : state.identity.authenticate headers = .ok ownerId ↔ state.Admits headers := by
  rw [IdentityConfig.authenticate_eq_ok, and_iff_right rfl]
  rfl

instance : Decidable (state.Admits headers) :=
  decidable_of_iff ((state.identity.authenticate headers).toBool = true) (by
    rw [← authenticate_iff]
    cases h : state.identity.authenticate headers with
    | error error => simp [Except.toBool]
    | ok userId => simp [Except.toBool, (IdentityConfig.authenticate_eq_ok.mp h).1])

instance [Extractors] : Decidable (state.Allows request) :=
  match hrouter : router request with
  | .error rejection => .isFalse (by simp [AppState.Allows, hrouter])
  | .ok endpoint => decidable_of_iff (endpoint.isPublic = true ∨ state.Admits request.headers) (by
      simp [AppState.Allows, hrouter])

theorem authenticate_refused (h : ¬ state.Admits headers) :
    ∃ message, state.identity.authenticate headers = .error (.unauthorized message) := by
  cases hresult : state.identity.authenticate headers with
  | error error =>
    obtain ⟨message, rfl⟩ := IdentityConfig.authenticate_error hresult
    exact ⟨message, rfl⟩
  | ok userId =>
    obtain ⟨rfl, hadmits⟩ := IdentityConfig.authenticate_eq_ok.mp hresult
    exact absurd hadmits h

theorem authenticated_refused (h : ¬ state.Admits headers) : ∃ message, ∀ respond,
    authenticated state headers respond = .error (.unauthorized message) := by
  obtain ⟨message, hmessage⟩ := authenticate_refused h
  exact ⟨message, fun respond => bind_eq_error.mpr (Or.inl hmessage)⟩

theorem authenticated_admits (h : state.Admits headers) (respond : Uuid → Except AppError Body) :
    authenticated state headers respond = (respond ownerId).mapError .app := by
  unfold authenticated
  rw [authenticate_iff.mpr h]
  rfl

end Access

section Runs

variable [Sha256] [Base64] [CaseMapping] [TrigramIndex] [Iteration] [UserTexts] [TimeZones] [DebugText]
  {state : AppState} {store after : Store} {headers : HeaderMap} {endpoint : Endpoint} {request : Request}
  {draws : Draws}

/-- A request without the token is told so, and does nothing. -/
theorem handle_refused (hpublic : endpoint.isPublic ≠ true) (hadmits : ¬ state.Admits headers) :
    ∃ message, handle state headers store endpoint draws = (.error (.unauthorized message), store) := by
  obtain ⟨message, hmessage⟩ := authenticate_refused hadmits
  obtain ⟨message', hread⟩ := authenticated_refused hadmits
  cases endpoint with
  | root => exact absurd rfl hpublic
  | health => exact absurd rfl hpublic
  | ready => exact absurd rfl hpublic
  | ingestEvents events =>
    refine ⟨message, ?_⟩
    simp only [handle, ingestEvents, hmessage]
  | _ => exact ⟨message', Prod.ext (hread _) rfl⟩

/-- What a request can do to the store. -/
theorem handle_cases : (handle state headers store endpoint draws).2 = store ∧
      (∀ events, endpoint = .ingestEvents events →
        ∃ error, (handle state headers store endpoint draws).1 = .error error) ∨
    ∃ events response after, endpoint = .ingestEvents events ∧
      Storage.ingestEvents events ownerId state.maxIngestBatchSize draws store = .ok (response, after) ∧
      handle state headers store endpoint draws = (.ok (.ingested response), after) := by
  cases endpoint with
  | ingestEvents events =>
    by_cases hadmits : state.Admits headers
    · have hauth := authenticate_iff.mpr hadmits
      cases hok : Storage.ingestEvents events ownerId state.maxIngestBatchSize draws store with
      | error error => exact Or.inl (by simp [handle, ingestEvents, hauth, hok])
      | ok result => exact Or.inr ⟨events, result.1, result.2, rfl, hok, by simp [handle, ingestEvents, hauth, hok]⟩
    · obtain ⟨message, hmessage⟩ := authenticate_refused hadmits
      exact Or.inl (by simp [handle, ingestEvents, hmessage])
  | _ => exact Or.inl ⟨rfl, fun _ h => by cases h⟩

/-- The responses to requests one after another, and the store they leave. -/
def serveAll (state : AppState) : Store → List (Request × Draws) → List Response × Store
  | store, [] => ([], store)
  | store, (request, draws) :: requests =>
    let (response, after) := serve state store request draws
    let (responses, last) := serveAll state after requests
    (response :: responses, last)

section Http

variable [Extractors]

def respondAll (state : AppState) : Store → List (HttpRequest × Draws) → List Response × Store
  | store, [] => ([], store)
  | store, (request, draws) :: requests =>
    let (response, after) := respond state store request draws
    let (responses, last) := respondAll state after requests
    (response :: responses, last)

/-- Requests are served as they are received; HEAD is sent less of it. -/
theorem respondAll_eq (requests : List (HttpRequest × Draws)) (store : Store) :
    respondAll state store requests =
      (List.zipWith (fun place response => place.1.sent response) requests
          (serveAll state store (requests.map fun place => (place.1.received, place.2))).1,
        (serveAll state store (requests.map fun place => (place.1.received, place.2))).2) := by
  induction requests generalizing store with
  | nil => rfl
  | cons place requests ih =>
    simp only [respondAll, respond, List.map_cons, serveAll, List.zipWith_cons_cons, ih]

/-- The answer to a request that no handler answers: why routing or an extractor rejects it, or that it does not bear
the token. -/
def Refused (request : HttpRequest) (response : Response) : Prop :=
  response.status ∈ [400, 401, 404, 405, 413, 415, 422] ∧
    ((∃ rejection, router request = .error rejection ∧ response = request.sent rejection.intoResponse) ∨
      (∃ endpoint, router request = .ok endpoint) ∧
        ∃ message : String, response = request.sent ⟨401, .error s!"unauthorized: {message}"⟩)

omit [Sha256] [Base64] [CaseMapping] [TrigramIndex] [Iteration] [UserTexts] [TimeZones] [DebugText] [Extractors] in
theorem sent_status (request : HttpRequest) (response : Response) :
    (request.sent response).status = response.status := by
  unfold HttpRequest.sent
  split <;> rfl

omit [Sha256] [Base64] [CaseMapping] [TrigramIndex] [Iteration] [UserTexts] [TimeZones] [DebugText] [Extractors] in
theorem rejection_status (rejection : Rejection) : rejection.statusCode ∈ [400, 401, 404, 405, 413, 415, 422] := by
  cases rejection with
  | jsonError error => cases error <;> simp [Rejection.statusCode]
  | _ => simp [Rejection.statusCode]

/-- A request that is not allowed does nothing. -/
theorem respond_refused {request : HttpRequest} (h : ¬ state.Allows request) :
    ∃ response, respond state store request draws = (response, store) ∧ Refused request response := by
  cases hrouter : router request with
  | error rejection =>
    have hserve : serve state store request.received draws = (rejection.intoResponse, store) := by
      simp only [serve, HttpRequest.received, hrouter]
    refine ⟨request.sent rejection.intoResponse, by rw [respond, hserve], ?_, Or.inl ⟨rejection, hrouter, rfl⟩⟩
    rw [sent_status]
    exact rejection_status rejection
  | ok endpoint =>
    have hneither : ¬ (endpoint.isPublic = true ∨ state.Admits request.headers) := fun hallows =>
      h ⟨endpoint, hrouter, hallows⟩
    obtain ⟨hpublic, hadmits⟩ := not_or.mp hneither
    obtain ⟨message, hmessage⟩ := @handle_refused _ _ _ _ _ _ _ _ state store _ endpoint draws hpublic hadmits
    have hserve : serve state store request.received draws =
        (⟨401, .error s!"unauthorized: {message}"⟩, store) := by
      simp only [serve, HttpRequest.received, hrouter, hmessage]
      rfl
    have hstatus : (request.sent ⟨401, .error s!"unauthorized: {message}"⟩).status = 401 := sent_status ..
    exact ⟨_, by rw [respond, hserve], by simp [hstatus], Or.inr ⟨⟨endpoint, hrouter⟩, message, rfl⟩⟩

/-- What no handler may answer is refused, and everything else goes on as if it had not been asked. -/
theorem serveAll_powerless (state : AppState) (requests : List (HttpRequest × Draws)) (store : Store) :
    respondAll state store (requests.filter fun place => state.Allows place.1) =
      (((requests.zip (respondAll state store requests).1).filter fun place => state.Allows place.1.1).map Prod.snd,
        (respondAll state store requests).2) ∧
    ∀ place ∈ requests.zip (respondAll state store requests).1, ¬ state.Allows place.1.1 →
      Refused place.1.1 place.2 := by
  induction requests generalizing store with
  | nil => simp [respondAll]
  | cons place requests ih =>
    obtain ⟨request, draws⟩ := place
    by_cases hallows : state.Allows request
    · obtain ⟨hsame, hrefused⟩ := ih (respond state store request draws).2
      constructor
      · simp only [List.filter_cons, hallows, decide_true, if_true, respondAll, List.zip_cons_cons, List.map_cons, hsame]
      · simp only [respondAll, List.zip_cons_cons, List.forall_mem_cons]
        exact ⟨fun hnot => absurd hallows hnot, hrefused⟩
    · obtain ⟨response, hrespond, hanswer⟩ :=
        @respond_refused _ _ _ _ _ _ _ _ state store draws _ request hallows
      obtain ⟨hsame, hrefused⟩ := ih store
      constructor
      · simp only [List.filter_cons, hallows, decide_false, Bool.false_eq_true, if_false, respondAll, hrespond,
          List.zip_cons_cons, hsame]
      · simp only [respondAll, hrespond, List.zip_cons_cons, List.forall_mem_cons]
        exact ⟨fun _ => hanswer, hrefused⟩

end Http

/-- The events that a response acknowledges. -/
def acknowledgedBy (request : Request) (response : Response) : List IngestUsageEvent :=
  match request.endpoint with
  | .ok (.ingestEvents events) => if response.status = 200 then events.events else []
  | _ => []

def acknowledged (requests : List (Request × Draws)) (responses : List Response) : List IngestUsageEvent :=
  (requests.zip responses).flatMap fun place => acknowledgedBy place.1.1 place.2

omit [Sha256] [Base64] [CaseMapping] [TrigramIndex] [Iteration] [UserTexts] [TimeZones] [DebugText] in
theorem statusCode_ne_ok (error : RequestError) : error.statusCode ≠ 200 := by
  cases error with
  | app error => cases error <;> simp [RequestError.statusCode]
  | _ => simp [RequestError.statusCode]

theorem serve_ok (headers : HeaderMap) (endpoint : Endpoint) : serve state store ⟨headers, .ok endpoint⟩ draws =
    (intoResponse (handle state headers store endpoint draws).1, (handle state headers store endpoint draws).2) := rfl

theorem serve_delivered {log : List Delivery} (h : Delivered log store) :
    Delivered (((acknowledgedBy request (serve state store request draws).1).map (Delivery.mk ownerId)).foldl
      receive log) (serve state store request draws).2 := by
  obtain ⟨headers, asked⟩ := request
  cases asked with
  | error rejection => exact h
  | ok endpoint =>
    obtain ⟨hstore, hfailed⟩ | ⟨events, response, after, rfl, hok, hhandle⟩ :=
      @handle_cases _ _ _ _ _ _ _ _ state store headers endpoint draws
    · have hnone : acknowledgedBy ⟨headers, .ok endpoint⟩ (serve state store ⟨headers, .ok endpoint⟩ draws).1 = [] := by
        unfold acknowledgedBy
        split
        · next events hasked =>
          obtain ⟨error, herror⟩ := hfailed events (Except.ok.inj hasked)
          apply if_neg
          rw [serve_ok, herror]
          exact statusCode_ne_ok error
        · rfl
      rw [hnone, serve_ok, hstore]
      exact h
    · have hserve : serve state store ⟨headers, .ok (.ingestEvents events)⟩ draws =
          (⟨200, .ingested response⟩, after) := by
        rw [serve_ok, hhandle]
        rfl
      rw [hserve, acknowledgedBy]
      exact h.ingest events ownerId state.maxIngestBatchSize draws response hok

theorem serveAll_delivered {requests : List (Request × Draws)} {log : List Delivery} (h : Delivered log store) :
    Delivered (((acknowledged requests (serveAll state store requests).1).map (Delivery.mk ownerId)).foldl receive log)
      (serveAll state store requests).2 := by
  induction requests generalizing store log with
  | nil => exact h
  | cons place requests ih =>
    obtain ⟨request, draws⟩ := place
    have hrest := ih (@serve_delivered _ _ _ _ _ _ _ _ state store request draws log h)
    rw [← List.foldl_append, ← List.map_append] at hrest
    exact hrest

end Runs

end AbyssBackend.Api

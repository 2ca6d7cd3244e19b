import Mathlib.Data.Finite.Prod
import Mathlib.Data.Set.Finite.Lattice
import Evenkeel.Infrastructure.PrometheusMetrics

/-!
# Metric Labels

Of the labels of a request, its method is copied from the request line, where a client writes
what it likes.

- `closedLabels`: what the route table, the application and the methods can make
- `metric_labels_finite_iff`: there are finitely many label tuples, and time series, exactly if
  there are finitely many methods
-/

namespace Evenkeel.Properties

open Evenkeel.Infrastructure Evenkeel.Presentation

/-- What an application can make of a request: the messages, and how it is left. -/
abbrev AsgiApp : Type := Request → Set (List Message × Ending)

namespace AsgiApp

variable (app : AsgiApp)

def statuses : Set ℤ :=
  {status | ∃ request outcome, outcome ∈ app request ∧ .start status ∈ outcome.1}

def exceptions : Set String :=
  {exceptionType | ∃ request messages, (messages, .raised exceptionType) ∈ app request}

/-- Requests of which each is one of those that arrive, and is answered by the application. -/
def Serves (requests : Set Request) (xs : List Exchange) : Prop :=
  ∀ x ∈ xs, x.request ∈ requests ∧ (x.messages, x.ending) ∈ app x.request

/-- The methods of the requests that arrive and are done with. -/
def methods (requests : Set Request) : Set String :=
  {method | ∃ request ∈ requests, request.kind = "http" ∧ request.method.getD "" = method ∧
    ∃ outcome ∈ app request, outcome.2 ≠ .exited}

end AsgiApp

variable {compilePath : String → String → Bool} {routes : List Route} {app : AsgiApp}
  {requests : Set Request}

/-- The calls of the port with nothing in them but these methods, a template, a status code of
    the application and a class of its exceptions. -/
def closedLabels (methods : Set String) (handlers : List String) (statuses : Set ℤ)
    (exceptions : Set String) : Set MetricsCall :=
  {c | match c with
    | .requestStarted => True
    | .requestFinished method handler status =>
      method ∈ methods ∧ handler ∈ handlers ∧ (status = 500 ∨ status ∈ statuses)
    | .requestFailed method handler exceptionType =>
      method ∈ methods ∧ handler ∈ handlers ∧
        (exceptionType = "CancelledError" ∨ exceptionType ∈ exceptions)}

def methodOf : MetricsCall → Option String
  | .requestStarted => none
  | .requestFinished method _ _ => some method
  | .requestFailed method _ _ => some method

/-- The status is that of a response that was started, or the one to begin with. -/
theorem statusCode_mem (messages : List Message) :
    statusCode messages = 500 ∨ .start (statusCode messages) ∈ messages := by
  unfold statusCode
  induction messages using List.reverseRecOn with
  | nil => exact .inl rfl
  | append_singleton messages message ih =>
    rw [List.foldl_append, List.foldl_cons, List.foldl_nil]
    cases message with
    | start status => exact .inr (by simp)
    | other => simpa using ih

theorem closedLabels_finite {methods : Set String} {handlers : List String} {statuses : Set ℤ}
    {exceptions : Set String} (hmethods : methods.Finite) (hstatuses : statuses.Finite)
    (hexceptions : exceptions.Finite) :
    (closedLabels methods handlers statuses exceptions).Finite := by
  have hhandlers := List.finite_toSet handlers
  have hfinished := ((hmethods.prod (hhandlers.prod (hstatuses.insert 500))).image
    fun label => MetricsCall.requestFinished label.1 label.2.1 label.2.2)
  have hfailed := ((hmethods.prod (hhandlers.prod (hexceptions.insert "CancelledError"))).image
    fun label => MetricsCall.requestFailed label.1 label.2.1 label.2.2)
  apply ((hfinished.union hfailed).insert .requestStarted).subset
  intro c hc
  cases c with
  | requestStarted => exact Set.mem_insert _ _
  | requestFinished method handler status =>
    exact .inr (.inl ⟨(method, handler, status), hc, rfl⟩)
  | requestFailed method handler exceptionType =>
    exact .inr (.inr ⟨(method, handler, exceptionType), hc, rfl⟩)

/-- What the port is told of a request. -/
theorem calls_closed {x : Exchange} (hrequest : x.request ∈ requests)
    (happ : (x.messages, x.ending) ∈ app x.request) {c : MetricsCall}
    (hc : c ∈ (ObservabilityMiddleware.call compilePath routes {} x).2) :
    c ∈ closedLabels (app.methods requests) (handlers compilePath routes) app.statuses
      app.exceptions := by
  unfold ObservabilityMiddleware.call at hc
  split at hc
  · cases hc
  · rename_i hkind
    -- the handler is that of a route, or the default
    have hhandler : ObservabilityMiddleware.handlerLabel compilePath routes {} x.request ∈
        handlers compilePath routes := ObservabilityMiddleware.handlerLabel_mem x.request
    -- the method is one of a request that is served
    have hmethod (hending : x.ending ≠ .exited) :
        x.request.method.getD "" ∈ app.methods requests :=
      ⟨x.request, hrequest, not_not.mp hkind, rfl, _, happ, hending⟩
    dsimp only at hc
    -- cancelled, with the default status
    split at hc
    · rename_i hending
      simp only [List.mem_cons, List.not_mem_nil, or_false] at hc
      rcases hc with rfl | rfl
      · trivial
      · exact ⟨hmethod (by simp [hending]), hhandler, .inl rfl⟩
    · -- raised, with the name of the exception
      rename_i exceptionType hending
      simp only [List.mem_cons, List.not_mem_nil, or_false] at hc
      rcases hc with rfl | rfl
      · trivial
      · exact ⟨hmethod (by simp [hending]), hhandler, .inr ⟨x.request, x.messages, hending ▸ happ⟩⟩
    · -- returned, with the status of the first message
      rename_i hending
      simp only [List.mem_cons, List.not_mem_nil, or_false] at hc
      rcases hc with rfl | rfl
      · trivial
      · refine ⟨hmethod (by simp [hending]), hhandler, ?_⟩
        rcases statusCode_mem x.messages with hdefault | hstarted
        · exact .inl hdefault
        · exact .inr ⟨x.request, _, happ, hstarted⟩
    · -- no `except` applies, and only the beginning is counted
      simp only [List.mem_cons, List.not_mem_nil, or_false] at hc
      subst hc
      trivial

/-- The method of a request that is done with is a label. -/
theorem method_is_label {x : Exchange} (hkind : x.request.kind = "http")
    (hending : x.ending ≠ .exited) :
    ∃ c ∈ (ObservabilityMiddleware.call compilePath routes {} x).2,
      ∃ s ∈ PrometheusMetrics.seriesOf c, methodOf c = some (x.request.method.getD "") ∧
        s.labels.head? = some (x.request.method.getD "") := by
  unfold ObservabilityMiddleware.call
  simp only [hkind, ne_eq, not_true_eq_false, if_false]
  cases hx : x.ending with
  | exited => exact absurd hx hending
  | cancelled =>
    exact ⟨_, List.mem_cons_of_mem _ List.mem_cons_self, _, List.mem_cons_self, rfl, rfl⟩
  | returned =>
    exact ⟨_, List.mem_cons_of_mem _ List.mem_cons_self, _, List.mem_cons_self, rfl, rfl⟩
  | raised exceptionType =>
    exact ⟨_, List.mem_cons_of_mem _ List.mem_cons_self, _, List.mem_cons_self, rfl, rfl⟩

/-- Of any stream of requests that arrive, the port is told nothing but methods of these
    requests, templates, status codes and exception classes of the application. So there are
    finitely many label tuples, and finitely many time series, exactly if the methods of the
    requests are finitely many. -/
theorem metric_labels_finite_iff (compilePath : String → String → Bool) (routes : List Route)
    (requests : Set Request) (hstatuses : app.statuses.Finite)
    (hexceptions : app.exceptions.Finite) :
    (∀ xs, app.Serves requests xs → ∀ c ∈ observed compilePath routes xs,
      c ∈ closedLabels (app.methods requests) (handlers compilePath routes) app.statuses
        app.exceptions) ∧
    ((∃ S : Set MetricsCall, S.Finite ∧ ∀ xs, app.Serves requests xs →
      ∀ c ∈ observed compilePath routes xs, c ∈ S) ↔ (app.methods requests).Finite) ∧
    ((∃ S : Set Series, S.Finite ∧ ∀ xs, app.Serves requests xs →
      ∀ s ∈ (PrometheusMetrics.after (observed compilePath routes xs)).samples, s ∈ S) ↔
      (app.methods requests).Finite) := by
  have hclosed : ∀ xs, app.Serves requests xs → ∀ c ∈ observed compilePath routes xs,
      c ∈ closedLabels (app.methods requests) (handlers compilePath routes) app.statuses
        app.exceptions := by
    -- what is observed comes from one of the requests
    intro xs hserves c hc
    rw [observed_eq] at hc
    obtain ⟨x, hx, hc⟩ := List.mem_flatMap.mp hc
    exact calls_closed (hserves x hx).1 (hserves x hx).2 hc
  -- a request that is done with, alone
  have halone : ∀ method ∈ app.methods requests, ∃ xs, app.Serves requests xs ∧
      ∃ c ∈ observed compilePath routes xs, ∃ s ∈ PrometheusMetrics.seriesOf c,
        methodOf c = some method ∧ s.labels.head? = some method := by
    intro method hmethod
    obtain ⟨request, hrequest, hkind, rfl, outcome, houtcome, hending⟩ := hmethod
    refine ⟨[⟨request, outcome.1, outcome.2⟩], ?_, ?_⟩
    · intro x hx
      obtain rfl := List.mem_singleton.mp hx
      exact ⟨hrequest, houtcome⟩
    · rw [observed_eq, List.flatMap_cons, List.flatMap_nil, List.append_nil]
      exact method_is_label hkind hending
  refine ⟨hclosed, ?_, ?_⟩
  · constructor
    · -- a finite set of calls leaves only finitely many methods
      intro h
      obtain ⟨S, hfinite, hS⟩ := h
      apply ((hfinite.image methodOf).preimage (Option.some_injective String).injOn).subset
      intro method hmethod
      obtain ⟨xs, hserves, c, hc, s, -, hlabel, -⟩ := halone method hmethod
      exact ⟨c, hS xs hserves c hc, hlabel⟩
    · -- finitely many methods leave only finitely many labels
      intro hmethods
      exact ⟨_, closedLabels_finite hmethods hstatuses hexceptions, hclosed⟩
  · constructor
    · -- the same for the series, whose first label is the method
      intro h
      obtain ⟨S, hfinite, hS⟩ := h
      apply ((hfinite.image fun s => s.labels.head?).preimage
        (Option.some_injective String).injOn).subset
      intro method hmethod
      obtain ⟨xs, hserves, c, hc, s, hs, -, hlabel⟩ := halone method hmethod
      exact ⟨s, hS xs hserves s (PrometheusMetrics.mem_samples.mpr ⟨c, hc, hs⟩), hlabel⟩
    · intro hmethods
      have hcalls : (closedLabels (app.methods requests) (handlers compilePath routes)
          app.statuses app.exceptions).Finite := closedLabels_finite hmethods hstatuses hexceptions
      refine ⟨_, hcalls.biUnion fun c _ => List.finite_toSet (PrometheusMetrics.seriesOf c), ?_⟩
      intro xs hserves s hs
      obtain ⟨c, hc, hs⟩ := PrometheusMetrics.mem_samples.mp hs
      exact Set.mem_biUnion (hclosed xs hserves c hc) hs

/-! ## A scanner

It asks for `/health` with one method token after the other. -/

/-- An application that answers every request with 200. -/
private def healthy : AsgiApp := fun _ => {([.start 200], .returned)}

private def exactly (template path : String) : Bool := template = path

private def probe (n : ℕ) : Request :=
  ⟨"http", some (String.ofList (List.replicate n 'M')), some "/health", [], []⟩

private theorem healthy_statuses : healthy.statuses = {200} := by
  ext status
  constructor
  · intro h
    obtain ⟨request, outcome, houtcome, hstart⟩ := h
    obtain rfl := Set.mem_singleton_iff.mp houtcome
    simpa using hstart
  · intro h
    obtain rfl := Set.mem_singleton_iff.mp h
    exact ⟨probe 0, _, rfl, List.mem_cons_self⟩

private theorem healthy_exceptions : healthy.exceptions = ∅ := by
  ext exceptionType
  constructor
  · intro h
    obtain ⟨request, messages, houtcome⟩ := h
    cases Set.mem_singleton_iff.mp houtcome
  · intro h
    cases h

/-- As long as it uses the same token, there are finitely many time series. -/
theorem metric_labels_finite_iff_healthy : ∃ S : Set Series, S.Finite ∧
    ∀ xs, healthy.Serves {probe 3} xs →
      ∀ s ∈ (PrometheusMetrics.after (observed exactly [.leaf "/health"] xs)).samples, s ∈ S := by
  apply (metric_labels_finite_iff exactly [.leaf "/health"] {probe 3} ?_ ?_).2.2.mpr
  · apply (Set.finite_singleton "MMM").subset
    intro method hmethod
    obtain ⟨request, rfl, -, rfl, -⟩ := hmethod
    rfl
  · rw [healthy_statuses]
    exact Set.finite_singleton 200
  · rw [healthy_exceptions]
    exact Set.finite_empty

/-- The route table has one template, and the application one status and no exceptions; but no
    finite set has all the label tuples, and none has all the time series. -/
theorem method_is_copied : healthy.statuses = {200} ∧ healthy.exceptions = ∅ ∧
    (¬∃ S : Set MetricsCall, S.Finite ∧ ∀ xs, healthy.Serves (Set.range probe) xs →
      ∀ c ∈ observed exactly [.leaf "/health"] xs, c ∈ S) ∧
    ¬∃ S : Set Series, S.Finite ∧ ∀ xs, healthy.Serves (Set.range probe) xs →
      ∀ s ∈ (PrometheusMetrics.after (observed exactly [.leaf "/health"] xs)).samples, s ∈ S := by
  -- any of the probes may be the only request
  have hserves : ∀ n, healthy.Serves (Set.range probe) [⟨probe n, [.start 200], .returned⟩] := by
    intro n x hx
    obtain rfl := List.mem_singleton.mp hx
    exact ⟨⟨n, rfl⟩, rfl⟩
  -- each has its own method
  have hinjective : Function.Injective fun n => String.ofList (List.replicate n 'M') := by
    intro n m h
    exact List.replicate_left_injective 'M' (String.ofList_injective h)
  refine ⟨healthy_statuses, healthy_exceptions, ?_, ?_⟩
  · intro h
    obtain ⟨S, hfinite, hS⟩ := h
    let call (n : ℕ) :=
      MetricsCall.requestFinished (String.ofList (List.replicate n 'M')) "/health" 200
    apply Set.infinite_of_injective_forall_mem (f := call) ?_ ?_ hfinite
    · intro n m h
      exact hinjective (MetricsCall.requestFinished.inj h).1
    · intro n
      apply hS _ (hserves n)
      exact List.mem_cons_of_mem _ List.mem_cons_self
  · intro h
    obtain ⟨S, hfinite, hS⟩ := h
    apply Set.infinite_of_injective_forall_mem (f := fun n =>
      Series.mk "evenkeel_http_request_duration_seconds"
        [String.ofList (List.replicate n 'M'), "/health"]) ?_ ?_ hfinite
    · intro n m h
      exact hinjective (List.cons.inj (Series.mk.inj h).2).1
    · intro n
      apply hS _ (hserves n)
      rw [PrometheusMetrics.mem_samples]
      exact ⟨_, List.mem_cons_of_mem _ List.mem_cons_self,
        List.mem_cons_of_mem _ List.mem_cons_self⟩

end Evenkeel.Properties

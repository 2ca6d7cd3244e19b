import Evenkeel.Presentation.Middleware

/-!
# Prometheus Metrics

`infrastructure/adapters/prometheus/metrics.py`: the calls of the middleware as time series.

- `PrometheusMetrics.call`: one call of the port

## Key Results

- `mem_samples`: which series a stream of calls leads to
-/

namespace Evenkeel.Infrastructure

open Evenkeel.Presentation

/-- A metric with the values of its labels. -/
structure Series where
  metric : String
  labels : List String
  deriving DecidableEq

/-- The samples that were taken, by their series, and the gauge. -/
structure PrometheusMetrics where
  inFlight : ℤ := 0
  samples : List Series := []

namespace PrometheusMetrics

/-- `metric.labels(*values)` and what is done to the child. -/
def sample (m : PrometheusMetrics) (metric : String) (values : List String) : PrometheusMetrics :=
  { m with samples := m.samples ++ [⟨metric, values⟩] }

def requestStarted (m : PrometheusMetrics) : PrometheusMetrics :=
  { m with inFlight := m.inFlight + 1 }

def requestFinished (m : PrometheusMetrics) (method handler : String) (statusCode : ℤ) :
    PrometheusMetrics :=
  ({ m with inFlight := m.inFlight - 1 }.sample "evenkeel_http_requests_total"
    [method, handler, toString statusCode]).sample "evenkeel_http_request_duration_seconds"
    [method, handler]

def requestFailed (m : PrometheusMetrics) (method handler exceptionType : String) :
    PrometheusMetrics :=
  ({ m with inFlight := m.inFlight - 1 }.sample "evenkeel_http_request_failures_total"
    [method, handler, exceptionType]).sample "evenkeel_http_request_duration_seconds"
    [method, handler]

def call (m : PrometheusMetrics) : MetricsCall → PrometheusMetrics
  | .requestStarted => m.requestStarted
  | .requestFinished method handler statusCode => m.requestFinished method handler statusCode
  | .requestFailed method handler exceptionType => m.requestFailed method handler exceptionType

/-- The registry after some calls. -/
def after (calls : List MetricsCall) : PrometheusMetrics := calls.foldl call {}

/-- The series that a call takes a sample of. -/
def seriesOf (c : MetricsCall) : List Series := (call {} c).samples

theorem call_samples (m : PrometheusMetrics) (c : MetricsCall) :
    (m.call c).samples = m.samples ++ seriesOf c := by
  cases c with
  | requestStarted => simp [call, seriesOf, requestStarted]
  | requestFinished method handler statusCode =>
    simp [call, seriesOf, requestFinished, sample]
  | requestFailed method handler exceptionType =>
    simp [call, seriesOf, requestFailed, sample]

theorem mem_samples {calls : List MetricsCall} {s : Series} :
    s ∈ (after calls).samples ↔ ∃ c ∈ calls, s ∈ seriesOf c := by
  have hfold : ∀ m : PrometheusMetrics,
      s ∈ (calls.foldl call m).samples ↔ s ∈ m.samples ∨ ∃ c ∈ calls, s ∈ seriesOf c := by
    induction calls with
    | nil => simp
    | cons c calls ih =>
      intro m
      rw [List.foldl_cons, ih, call_samples]
      simp [or_assoc]
  simpa [after] using hfold {}

end PrometheusMetrics

end Evenkeel.Infrastructure

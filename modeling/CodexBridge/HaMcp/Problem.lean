/-! # Problem codes of the Bridge

What the integration keeps of the error code in a response of the App.
-/

namespace CodexBridge.HaMcp

def KNOWN_PROBLEM_CODES : List String :=
  ["stale_context", "workspace_context_not_found", "unsafe_workspace_context_entry",
    "workspace_context_unavailable", "workspace_context_limit_exceeded",
    "workspace_context_not_text", "workspace_context_range_unavailable",
    "elapsed_time_limit_invalid", "goals_unavailable", "goal_conflict", "goal_revision_conflict",
    "goal_invalid", "goal_chat_not_found", "goal_context_stale", "api_incompatible",
    "app_server_unavailable", "already_exists", "auth_cancel_unsupported",
    "auth_operation_conflict", "auth_unavailable", "account_profile_invalid",
    "account_profile_reauthentication_required", "account_profiles_unavailable",
    "authentication_failed", "authentication_required", "authorization_failed",
    "agents_unavailable", "subagents_unavailable", "child_not_found", "child_stale",
    "child_ownership_conflict", "child_revision_conflict", "child_stop_unavailable",
    "child_turn_changed", "child_request_capacity", "child_request_conflict",
    "invalid_child_request", "child_follow_up_unavailable", "child_control_uncertain",
    "assist_mcp_unavailable", "assist_selection_changed", "assist_policy_invalid",
    "automation_conflict", "automation_error", "automation_invalid", "automation_not_found",
    "automation_revision_conflict", "reset_credit_unavailable", "bad_request",
    "host_access_unavailable", "bridge_problem", "capabilities_conflict", "capabilities_error",
    "capabilities_invalid", "capabilities_unavailable", "chat_operations_unavailable",
    "chat_context_changed", "chat_context_deleted", "chat_context_expired",
    "chat_context_inaccessible", "chat_context_unavailable",
    "chat_context_destination_unavailable", "chat_context_empty", "chat_context_limit_exceeded",
    "chat_context_range_unavailable", "client_request_id_required",
    "collaboration_mode_requires_queue", "web_search_requires_queue", "chat_section_conflict",
    "chat_section_not_found", "chat_section_payload_invalid", "chat_section_store_unavailable",
    "navigation_revision_conflict", "navigation_revision_required", "section_revision_conflict",
    "conflict", "durable_operation_too_large", "event_cursor_expired", "event_payload_too_large",
    "event_projection_invalid", "event_store_capacity_exhausted",
    "event_wait_capacity_exhausted", "git_base_ref_required", "git_state_changed",
    "git_unavailable", "interaction_outcome_unknown", "interaction_already_resolved",
    "interaction_kind_mismatch", "interaction_not_found", "interaction_stale",
    "interaction_thread_mismatch", "not_found", "invalid_event_filter", "invalid_relative_path",
    "mcp_config_conflict", "community_mcp_connection_changed", "mcp_restart_required",
    "mcp_disabled", "mcp_elicitation_unavailable", "mcp_request_invalid", "mcp_runtime_invalid",
    "mcp_server_not_found", "mcp_unavailable", "mcp_local_disabled", "mcp_stdio_disabled",
    "mcp_stdio_unavailable", "mcp_package_invalid", "mcp_package_not_found", "payload_too_large",
    "path_escape", "quota_exceeded", "range_not_satisfiable", "rate_limited",
    "reservation_conflict", "resource_gone", "resource_limit", "runtime_attachments_not_ready",
    "runtime_closed", "runtime_conflict", "runtime_event_payload_too_large",
    "runtime_idempotency_capacity", "runtime_mutation_conflict", "runtime_queue_full",
    "runtime_request_conflict", "queued_prompt_not_found", "queued_prompt_revision_conflict",
    "runtime_projection_invalid", "runtime_thread_busy", "runtime_thread_operation_conflict",
    "runtime_thread_operation_unknown", "runtime_unavailable", "task_actions_unavailable",
    "thread_has_scheduled_automation", "task_host_access_denied", "task_id_invalid",
    "task_model_unavailable", "task_not_found", "task_retry_conflict", "task_target_not_found",
    "task_target_unavailable", "secure_operations_unavailable", "steer_outcome_unknown",
    "thread_event_cursor_expired", "thread_prompt_pending", "turn_cancelling", "turn_changed",
    "upload_conflict", "workspace_error", "wrong_type"]

def defaultProblemCode (status : Nat) : String :=
  if status = 400 then "bad_request"
  else if status = 401 then "authentication_failed"
  else if status = 403 then "authorization_failed"
  else if status = 404 then "not_found"
  else if status = 409 then "conflict"
  else if status = 410 then "resource_gone"
  else if status = 413 then "payload_too_large"
  else if status = 416 then "range_not_satisfiable"
  else if status = 429 then "rate_limited"
  else "bridge_problem"

/-- An error response of the App: the status and the code in its detail. -/
structure Problem where
  status : Nat
  code : String
deriving DecidableEq

def Problem.kept (p : Problem) : String :=
  if KNOWN_PROBLEM_CODES.contains p.code then p.code else defaultProblemCode p.status

theorem defaultProblemCode_known (status : Nat) :
    KNOWN_PROBLEM_CODES.contains (defaultProblemCode status) = true := by
  unfold defaultProblemCode
  repeat' split
  all_goals decide +kernel

theorem Problem.kept_known (p : Problem) : KNOWN_PROBLEM_CODES.contains p.kept = true := by
  unfold kept
  split
  · assumption
  · exact defaultProblemCode_known p.status

/-- The App's code for a credential that somebody else has set does not survive. -/
theorem bindingConflict_unknown :
    KNOWN_PROBLEM_CODES.contains "mcp_credential_binding_conflict" = false := by decide +kernel

theorem Problem.kept_ne_bindingConflict (p : Problem) :
    p.kept ≠ "mcp_credential_binding_conflict" := by
  intro h
  have hknown := p.kept_known
  rw [h, bindingConflict_unknown] at hknown
  cases hknown

end CodexBridge.HaMcp

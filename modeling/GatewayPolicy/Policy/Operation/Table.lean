import GatewayPolicy.Policy.Operation.Basic

/-! # The table of operations

  All operations that can be called as a statement, by name.
-/

namespace GatewayPolicy

/-! ## Rules that several operations share -/

/-- An entry is known by its name or its identifier. -/
def nameOrId : Rule := .atLeastOne [⟨"Name", "name"⟩, ⟨"Id", "id"⟩]

/-- A quota limits the calls or the bandwidth. -/
def callsOrBandwidth : Rule := .atLeastOne [⟨"Calls", "calls"⟩, ⟨"Bandwidth", "bandwidth"⟩]

/-- How many calls in how much time. -/
def callsPerPeriod : List Rule :=
  [.required ⟨"Calls", "calls"⟩, .required ⟨"RenewalPeriod", "renewal-period"⟩]

/-- Where the state of a limit is shown. -/
def limitOutputs : List Rule :=
  [.optional ⟨"RetryAfterHeaderName", "retry-after-header-name"⟩,
   .optional ⟨"RetryAfterVariableName", "retry-after-variable-name"⟩,
   .optional ⟨"RemainingCallsHeaderName", "remaining-calls-header-name"⟩,
   .optional ⟨"RemainingCallsVariableName", "remaining-calls-variable-name"⟩,
   .optional ⟨"TotalCallsHeaderName", "total-calls-header-name"⟩]

/-- What is counted, and by how much. -/
def increments : List Rule :=
  [.optional ⟨"IncrementCondition", "increment-condition"⟩,
   .optional ⟨"IncrementCount", "increment-count"⟩]

/-- The tiers of a limit: interfaces, and operations in each. -/
def limitTiers (rules : List Rule) : List Tier :=
  [{ field := "Apis", form := { element := "api", rules } },
   { field := "Operations", form := { element := "operation", rules } }]

/-! ## Schemas -/

/-- The status of the response. -/
def statusSchema : Schema where
  type := "SetStatusConfig"
  form :=
    { element := "set-status"
      rules := [.required ⟨"Code", "code"⟩, .required ⟨"Reason", "reason"⟩] }

/-- A limit on the rate of calls. -/
def rateLimitSchema : Schema where
  type := "RateLimitConfig"
  form := { element := "rate-limit", rules := callsPerPeriod ++ limitOutputs }
  tiers := limitTiers (nameOrId :: callsPerPeriod)

/-- A limit on the rate of calls, counted by a key. -/
def rateLimitByKeySchema : Schema where
  type := "RateLimitByKeyConfig"
  form :=
    { element := "rate-limit-by-key"
      rules := callsPerPeriod ++ [.required ⟨"CounterKey", "counter-key"⟩] ++ increments ++
        limitOutputs }

/-- A limit on all calls of a period. -/
def quotaSchema : Schema where
  type := "QuotaConfig"
  form :=
    { element := "quota"
      rules := [callsOrBandwidth, .required ⟨"RenewalPeriod", "renewal-period"⟩] }
  tiers := limitTiers
    [nameOrId, callsOrBandwidth, .optional ⟨"RenewalPeriod", "renewal-period"⟩]

/-- A limit on all calls of a period, counted by a key. -/
def quotaByKeySchema : Schema where
  type := "QuotaByKeyConfig"
  form :=
    { element := "quota-by-key"
      rules := [.required ⟨"CounterKey", "counter-key"⟩, callsOrBandwidth,
        .required ⟨"RenewalPeriod", "renewal-period"⟩] ++ increments ++
        [.optional ⟨"FirstPeriodStart", "first-period-start"⟩] }

/-- An authentication by a certificate, which is given in one of three ways. -/
def certificateSchema : Schema where
  type := "CertificateAuthenticationConfig"
  form :=
    { element := "authentication-certificate"
      rules := [
        .exactlyOne [⟨"Thumbprint", "thumbprint"⟩, ⟨"CertificateId", "certificate-id"⟩,
          ⟨"Body", "body"⟩],
        .optional ⟨"Password", "password"⟩] }

/-- The form of an authentication by managed identity; the rule in the middle
    says which variable the token is stored in. -/
def managedIdentityForm (output : Rule) : Form where
  element := "authentication-managed-identity"
  rules := [.required ⟨"Resource", "resource"⟩, .optional ⟨"ClientId", "client-id"⟩, output,
    .optional ⟨"IgnoreError", "ignore-error"⟩]

/-- An authentication by managed identity. -/
def managedIdentitySchema : Schema where
  type := "ManagedIdentityAuthenticationConfig"
  form := managedIdentityForm
    (.optional ⟨"OutputTokenVariableName", "output-token-variable-name"⟩)

/-- The service that requests go to, by its address or its identifier. -/
def backendServiceSchema : Schema where
  type := "SetBackendServiceConfig"
  form :=
    { element := "set-backend-service"
      rules := [
        .exactlyOne [⟨"BaseUrl", "base-url"⟩, ⟨"BackendId", "backend-id"⟩],
        .optional ⟨"SfResolveCondition", "sf-resolve-condition"⟩,
        .optional ⟨"SfServiceInstanceName", "sf-service-instance-name"⟩,
        .optional ⟨"SfPartitionKey", "sf-partition-key"⟩,
        .optional ⟨"SfListenerName", "sf-listener-name"⟩] }

/-- The forwarding of the request to the service. -/
def forwardRequestSchema : Schema where
  type := "ForwardRequestConfig"
  form :=
    { element := "forward-request"
      rules := [
        .optional ⟨"HttpVersion", "http-version"⟩,
        .optional ⟨"Timeout", "timeout"⟩,
        .optional ⟨"TimeoutMs", "timeout-ms"⟩,
        .optional ⟨"ContinueTimeout", "continue-timeout"⟩,
        .optional ⟨"FollowRedirects", "follow-redirects"⟩,
        .optional ⟨"BufferRequestBody", "buffer-request-body"⟩,
        .optional ⟨"BufferResponse", "buffer-response"⟩,
        .optional ⟨"FailOnErrorStatusCode", "fail-on-error-status-code"⟩] }
  omissible := true

/-- An answer made up by the gateway. -/
def mockResponseSchema : Schema where
  type := "MockResponseConfig"
  form :=
    { element := "mock-response"
      rules := [
        .optional ⟨"StatusCode", "status-code"⟩,
        .optional ⟨"ContentType", "content-type"⟩,
        .optional ⟨"Index", "index"⟩] }
  omissible := true

/-! ## The table -/

namespace Operation

/-- Every operation with the name it is called by. -/
def table : List (String × Operation) :=
  [("Base", .bare "base"),
   ("SetHeader", .entry "set-header" "override" true),
   ("AppendHeader", .entry "set-header" "append" true),
   ("SetHeaderIfNotExist", .entry "set-header" "skip" true),
   ("RemoveHeader", .entry "set-header" "delete" false),
   ("SetQueryParameter", .entry "set-query-parameter" "override" true),
   ("AppendQueryParameter", .entry "set-query-parameter" "append" true),
   ("SetQueryParameterIfNotExist", .entry "set-query-parameter" "skip" true),
   ("RemoveQueryParameter", .entry "set-query-parameter" "delete" false),
   ("SetMethod", .text "set-method"),
   ("SetBody", .text "set-body"),
   ("SetStatus", .configured statusSchema),
   ("SetVariable", .positional "set-variable" 2 ["name", "value"]),
   ("RewriteUri", .positional "rewrite-uri" 1 ["template", "copy-unmatched-params"]),
   ("FindAndReplace", .positional "find-and-replace" 2 ["from", "to"]),
   ("IncludeFragment", .positional "include-fragment" 1 ["fragment-id"]),
   ("InlinePolicy", .markup),
   ("RateLimit", .configured rateLimitSchema),
   ("RateLimitByKey", .configured rateLimitByKeySchema),
   ("Quota", .configured quotaSchema),
   ("QuotaByKey", .configured quotaByKeySchema),
   ("CheckHeader", .headerCheck),
   ("IpFilter", .addressFilter),
   ("AuthenticationBasic", .positional "authentication-basic" 2 ["username", "password"]),
   ("AuthenticationCertificate", .configured certificateSchema),
   ("AuthenticationManagedIdentity", .configured managedIdentitySchema),
   ("SetBackendService", .configured backendServiceSchema),
   ("ForwardRequest", .configured forwardRequestSchema),
   ("MockResponse", .configured mockResponseSchema),
   ("ReturnResponse", .response),
   ("CacheStore", .positional "cache-store" 1 ["duration", "cache-response"])]

/-- The operation of a name. -/
def named? (name : String) : Option Operation := table.lookup name

end Operation

end GatewayPolicy

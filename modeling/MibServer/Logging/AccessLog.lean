import MibServer.Lib.Json
import Mathlib.Data.List.Basic

/-!
The access log: what `AccessBehaviorInterceptor` writes of a request body.

Some credentials are removed by their exact name, from the outermost object only. So the
entry does not depend on the credentials of a body if and only if each of them is a field
of the outermost object under one of the names that are removed.
-/

namespace MibServer.Logging

open MibServer.Lib

variable {N : Type}

def STRIPPED : List JsString :=
  [js "password", js "passwordHash", js "token", js "authorization", js "refreshToken",
    js "accessToken", js "secret"]

/-- No body is `none`. -/
structure Request (N : Type) where
  method : JsString
  originalUrl : JsString
  url : JsString
  body : Option (Json N)

structure HttpAccess (N : Type) where
  method : JsString
  path : JsString
  statusCode : Nat
  durationMs : Nat
  slow : Bool
  body : Option (Json N)

/-- `url.split('?')[0]` -/
def stripQuery (url : JsString) : JsString := (url.splitOn 63).headD url

def safeBody : Json N → Json N
  | .object fields => .object (fields.filter fun f => f.1 ∉ STRIPPED)
  | body => body

/-- `req.originalUrl || req.url || ''`, without the query. -/
def pathOnly (req : Request N) : JsString :=
  stripQuery (if req.originalUrl = [] then req.url else req.originalUrl)

/-- The `http_access` entry of a finished request, if there is one. -/
def httpAccess (slowRequestMs : Nat) (req : Request N) (statusCode durationMs : Nat) :
    Option (HttpAccess N) :=
  let isSlow := slowRequestMs ≤ durationMs && pathOnly req ≠ js "/health"
  let body := if req.method ∈ [js "POST", js "PUT", js "PATCH"] then req.body.map safeBody else none
  if pathOnly req = js "/health" then none
  else some ⟨req.method, pathOnly req, statusCode, durationMs, isSlow, body⟩

/-! ### Credentials -/

def CREDENTIALS : List JsString :=
  [js "password", js "currentPassword", js "newPassword", js "token", js "qrToken", js "secret"]

mutual

/-- Two values that differ in the values of credential fields only, at any depth. -/
def Alike : Json N → Json N → Prop
  | .array items, w => ∃ items', w = .array items' ∧ AlikeItems items items'
  | .object fields, w => ∃ fields', w = .object fields' ∧ AlikeFields fields fields'
  | .null, w => w = .null
  | .bool b, w => w = .bool b
  | .number x, w => w = .number x
  | .string s, w => w = .string s

def AlikeItems : List (Json N) → List (Json N) → Prop
  | [], w => w = []
  | v :: items, w => ∃ v' items', w = v' :: items' ∧ Alike v v' ∧ AlikeItems items items'

def AlikeFields : List (JsString × Json N) → List (JsString × Json N) → Prop
  | [], w => w = []
  | (key, val) :: fields, w => ∃ val' fields', w = (key, val') :: fields' ∧
      (key ∈ CREDENTIALS ∨ Alike val val') ∧ AlikeFields fields fields'

end

/-- No field at any depth is a credential. -/
def NoCredential (v : Json N) : Prop := v.AllFields fun key => key ∉ CREDENTIALS

/-- Every credential is a field of the outermost object and is removed there. -/
def CredentialsStripped : Json N → Prop
  | .object fields => ∀ f ∈ fields, f.1 ∉ STRIPPED → f.1 ∉ CREDENTIALS ∧ NoCredential f.2
  | body => NoCredential body

/-- The entry of the request has the body in it. -/
def LogsBody (req : Request N) : Prop :=
  pathOnly req ≠ js "/health" ∧ req.method ∈ [js "POST", js "PUT", js "PATCH"]

/-! ### Values without credentials -/

theorem alikeItems_eq {items w : List (Json N)} (ih : ∀ v ∈ items, ∀ v', Alike v v' → v' = v)
    (h : AlikeItems items w) : w = items := by
  induction items generalizing w with
  | nil => exact h
  | cons v items hitems =>
      obtain ⟨v', items', rfl, hv, hrest⟩ := h
      rw [ih v List.mem_cons_self v' hv, hitems (fun u hu => ih u (List.mem_cons_of_mem _ hu)) hrest]

theorem alikeFields_eq {fields w : List (JsString × Json N)} (hkeys : ∀ f ∈ fields, f.1 ∉ CREDENTIALS)
    (ih : ∀ f ∈ fields, ∀ v', Alike f.2 v' → v' = f.2) (h : AlikeFields fields w) : w = fields := by
  induction fields generalizing w with
  | nil => exact h
  | cons f fields hfields =>
      obtain ⟨val', fields', rfl, hval, hrest⟩ := h
      have hvalue := ih f List.mem_cons_self val' (hval.resolve_left (hkeys f List.mem_cons_self))
      rw [hvalue, hfields (fun g hg => hkeys g (List.mem_cons_of_mem _ hg))
        (fun g hg => ih g (List.mem_cons_of_mem _ hg)) hrest]

/-- A value without credentials is alike to itself only. -/
theorem eq_of_alike {v : Json N} (hv : NoCredential v) : ∀ w, Alike v w → w = v := by
  induction v using Json.induct with
  | null | bool b | number x | string s => exact fun w h => h
  | array items ih =>
      rintro w ⟨items', rfl, hitems⟩
      have hall := Json.allFields_array.mp hv
      rw [alikeItems_eq (fun v hv => ih v hv (hall v hv)) hitems]
  | object fields ih =>
      rintro w ⟨fields', rfl, hfields⟩
      have hall := Json.allFields_object.mp hv
      rw [alikeFields_eq (fun f hf => (hall f hf).1) (fun f hf => ih f hf (hall f hf).2) hfields]

/-! ### Other credentials -/

/-- Another value. -/
def other : Json N → Json N
  | .null => .bool true
  | _ => .null

theorem other_ne (v : Json N) : other v ≠ v := by
  cases v with
  | null | bool _ | number _ | string _ | array _ | object _ => simp [other]

mutual

/-- The value with every credential replaced by another one. -/
def swapped : Json N → Json N
  | .array items => .array (swappedItems items)
  | .object fields => .object (swappedFields fields)
  | v => v

def swappedItems : List (Json N) → List (Json N)
  | [] => []
  | v :: items => swapped v :: swappedItems items

def swappedFields : List (JsString × Json N) → List (JsString × Json N)
  | [] => []
  | (key, val) :: fields =>
      (key, if key ∈ CREDENTIALS then other val else swapped val) :: swappedFields fields

end

theorem swappedItems_eq_map (items : List (Json N)) : swappedItems items = items.map swapped := by
  induction items with
  | nil => rfl
  | cons v items ih => rw [swappedItems, ih, List.map_cons]

theorem swappedFields_eq_map (fields : List (JsString × Json N)) : swappedFields fields =
    fields.map fun f => (f.1, if f.1 ∈ CREDENTIALS then other f.2 else swapped f.2) := by
  induction fields with
  | nil => rfl
  | cons f fields ih => rw [swappedFields, ih, List.map_cons]

theorem alike_swapped (v : Json N) : Alike v (swapped v) := by
  induction v using Json.induct with
  | null | bool b | number x | string s => rfl
  | array items ih =>
      refine ⟨_, rfl, ?_⟩
      induction items with
      | nil => rfl
      | cons v items hitems =>
          exact ⟨_, _, rfl, ih v List.mem_cons_self, hitems fun u hu => ih u (List.mem_cons_of_mem _ hu)⟩
  | object fields ih =>
      refine ⟨_, rfl, ?_⟩
      induction fields with
      | nil => rfl
      | cons f fields hfields =>
          refine ⟨_, _, rfl, ?_, hfields fun g hg => ih g (List.mem_cons_of_mem _ hg)⟩
          by_cases hkey : f.1 ∈ CREDENTIALS
          · exact Or.inl hkey
          · rw [if_neg hkey]
            exact Or.inr (ih f List.mem_cons_self)

theorem forall_of_map_eq {α : Type} {f : α → α} {l : List α} (h : l.map f = l) : ∀ x ∈ l, f x = x :=
  List.map_inj_left.mp (h.trans (List.map_id l).symm)

theorem not_credential_of_swapped {f : JsString × Json N}
    (h : (f.1, if f.1 ∈ CREDENTIALS then other f.2 else swapped f.2) = f) :
    f.1 ∉ CREDENTIALS ∧ swapped f.2 = f.2 := by
  have hvalue := congrArg Prod.snd h
  by_cases hkey : f.1 ∈ CREDENTIALS
  · exact absurd ((if_pos hkey).symm.trans hvalue) (other_ne f.2)
  · exact ⟨hkey, (if_neg hkey).symm.trans hvalue⟩

/-- A value that the swap leaves alone has no credentials. -/
theorem noCredential_of_swapped {v : Json N} (h : swapped v = v) : NoCredential v := by
  induction v using Json.induct with
  | null | bool b | number x | string s => simp [NoCredential]
  | array items ih =>
      rw [swapped, swappedItems_eq_map] at h
      refine Json.allFields_array.mpr ?_
      intro v hv
      exact ih v hv (forall_of_map_eq (Json.array.inj h) v hv)
  | object fields ih =>
      rw [swapped, swappedFields_eq_map] at h
      refine Json.allFields_object.mpr ?_
      intro f hf
      obtain ⟨hkey, hvalue⟩ := not_credential_of_swapped (forall_of_map_eq (Json.object.inj h) f hf)
      exact ⟨hkey, ih f hf hvalue⟩

/-! ### The logged body -/

theorem filter_swappedFields (fields : List (JsString × Json N)) :
    (swappedFields fields).filter (fun f => f.1 ∉ STRIPPED) =
      (fields.filter fun f => f.1 ∉ STRIPPED).map
        fun f => (f.1, if f.1 ∈ CREDENTIALS then other f.2 else swapped f.2) := by
  rw [swappedFields_eq_map, List.filter_map]
  rfl

theorem filter_of_alikeFields {fields w : List (JsString × Json N)}
    (hkeys : ∀ f ∈ fields, f.1 ∉ STRIPPED → f.1 ∉ CREDENTIALS ∧ NoCredential f.2)
    (h : AlikeFields fields w) :
    (w.filter fun f => f.1 ∉ STRIPPED) = fields.filter fun f => f.1 ∉ STRIPPED := by
  induction fields generalizing w with
  | nil =>
      obtain rfl : w = [] := h
      rfl
  | cons f fields ih =>
      obtain ⟨val', fields', rfl, hval, hrest⟩ := h
      have htail := ih (fun g hg => hkeys g (List.mem_cons_of_mem _ hg)) hrest
      by_cases hstripped : f.1 ∈ STRIPPED
      · rw [List.filter_cons_of_neg (by simpa using hstripped),
          List.filter_cons_of_neg (by simpa using hstripped), htail]
      · obtain ⟨hkey, hclean⟩ := hkeys f List.mem_cons_self hstripped
        rw [eq_of_alike hclean val' (hval.resolve_left hkey),
          List.filter_cons_of_pos (by simpa using hstripped),
          List.filter_cons_of_pos (by simpa using hstripped), htail]

/-- The logged body hides the credentials if and only if they are where the code looks. -/
theorem safeBody_iff (body : Json N) :
    (∀ body', Alike body body' → safeBody body' = safeBody body) ↔ CredentialsStripped body := by
  constructor
  · intro h
    have hswapped := h (swapped body) (alike_swapped body)
    cases body with
    | object fields =>
        rw [swapped, safeBody, safeBody, filter_swappedFields] at hswapped
        intro f hf hkept
        have hfield := forall_of_map_eq (Json.object.inj hswapped) f
          (List.mem_filter.mpr ⟨hf, by simpa using hkept⟩)
        obtain ⟨hkey, hvalue⟩ := not_credential_of_swapped hfield
        exact ⟨hkey, noCredential_of_swapped hvalue⟩
    | array items => exact noCredential_of_swapped hswapped
    | null | bool _ | number _ | string _ => simp [CredentialsStripped, NoCredential]
  · intro hbody body' halike
    cases body with
    | object fields =>
        obtain ⟨fields', rfl, hfields⟩ := halike
        rw [safeBody, safeBody, filter_of_alikeFields hbody hfields]
    | array _ | null | bool _ | number _ | string _ => rw [eq_of_alike hbody body' halike]

variable {slowRequestMs statusCode durationMs : Nat} {req : Request N}

/-- The entries of two requests that differ in their bodies alone. -/
theorem loggedBody_eq_iff (body' : Option (Json N)) :
    (httpAccess slowRequestMs { req with body := body' } statusCode durationMs).map HttpAccess.body =
        (httpAccess slowRequestMs req statusCode durationMs).map HttpAccess.body ↔
      (LogsBody req → body'.map safeBody = req.body.map safeBody) := by
  have hpath : pathOnly { req with body := body' } = pathOnly req := rfl
  unfold httpAccess LogsBody
  rw [hpath]
  by_cases hhealth : pathOnly req = js "/health"
  · simp [hhealth]
  · by_cases hmethod : req.method ∈ [js "POST", js "PUT", js "PATCH"]
    · simp [hhealth, hmethod]
    · simp [hhealth, hmethod]

/-- No credential of a request reaches its entry if and only if no body is logged, or each
credential is a field of the outermost object that the code removes. -/
theorem httpAccess_hides_iff (slowRequestMs : Nat) (req : Request N) (statusCode durationMs : Nat) :
    (∀ body', Option.Rel Alike req.body body' →
      (httpAccess slowRequestMs { req with body := body' } statusCode durationMs).map HttpAccess.body =
        (httpAccess slowRequestMs req statusCode durationMs).map HttpAccess.body) ↔
      (LogsBody req → ∀ body ∈ req.body, CredentialsStripped body) := by
  constructor
  · intro h hlogs body hbody
    refine (safeBody_iff body).mp ?_
    intro body' halike
    have hrel : Option.Rel Alike req.body (some body') := by
      rw [Option.mem_def.mp hbody]
      exact .some halike
    have hsame := (loggedBody_eq_iff _).mp (h (some body') hrel) hlogs
    rw [Option.mem_def.mp hbody] at hsame
    exact Option.some.inj hsame
  · intro h body' hrel
    refine (loggedBody_eq_iff body').mpr ?_
    intro hlogs
    cases hbody : req.body with
    | none =>
        rw [hbody] at hrel
        cases hrel
        rfl
    | some body =>
        rw [hbody] at hrel
        cases hrel with
        | some halike =>
            have hstripped := h hlogs body (Option.mem_def.mpr hbody)
            exact congrArg some ((safeBody_iff body).mpr hstripped _ halike)

/-- The request that changes a password. -/
def changePassword (currentPassword : String) : Request Unit where
  method := js "POST"
  originalUrl := js "/auth/change-password"
  url := js "/auth/change-password"
  body := some (.object [(js "currentPassword", .string (js currentPassword)),
    (js "newPassword", .string (js "secret2"))])

/-- The old password of a changed one is in the entry. -/
theorem currentPassword_logged : ¬ ∀ (slowRequestMs : Nat) (req : Request Unit) (statusCode durationMs : Nat),
    ∀ body', Option.Rel Alike req.body body' →
      (httpAccess slowRequestMs { req with body := body' } statusCode durationMs).map HttpAccess.body =
        (httpAccess slowRequestMs req statusCode durationMs).map HttpAccess.body := by
  intro h
  have halike : Option.Rel Alike (changePassword "secret1").body (changePassword "secret9").body :=
    .some ⟨_, rfl, _, _, rfl, Or.inl (by decide), _, _, rfl, Or.inl (by decide), rfl⟩
  have hentry : ∀ currentPassword,
      (httpAccess 0 (changePassword currentPassword) 201 12).map HttpAccess.body =
        some (changePassword currentPassword).body := fun _ => rfl
  have hsame := (hentry "secret9").symm.trans
    ((h 0 (changePassword "secret1") 201 12 _ halike).trans (hentry "secret1"))
  simp only [changePassword, Option.some.injEq, Json.object.injEq, List.cons.injEq, Prod.mk.injEq,
    Json.string.injEq, and_true, true_and] at hsame
  exact absurd hsame (by decide)

end MibServer.Logging

import MibServer.Tenancy.ChildIsolation

/-!
Whole runs of calls on child rows by the users of many tenants.

A call that names rows of its user's tenants takes databases that look the same to databases
that look the same (`ChildCall.NamesOwn.alike_run`), and a call that names nothing the observer
sees leaves everything as it looked (`ChildCall.Avoids.alike_run`). So the replies to the users
of some tenants are those they would get if nobody else had called anything
(`replies_without_others`), as long as every call keeps to its own rows: the services do not see
to it, the callers must.
-/

namespace MibServer.Tenancy

open MibServer.Lib

/-! ### References stay closed -/

section Closed

variable {db : Database} {e : Entry} {r : StoredRow} {call : ChildCall} {env : CallEnv}
  {ambient : Ambient}

/-- A call that writes touches no row that another refers to. -/
theorem sameReferred_run (ht : call.target? = some e) :
    Indexed.SameReferred StoredRow.parents db (call.run ambient env db).2 := by
  rintro p ⟨x, k, hk, hkp⟩
  refine (run_performs db ambient env ht).rest p fun he => ?_
  exact not_mem_parents_of_link (isLink_of_target ht) he hkp hk

/-- A row under the entry was there, or what it links is. -/
theorem effect_some {refs : Prop} [Decidable refs] {row : Option StoredRow} (ht : call.target? = some e)
    (h : (call.effect env refs row).2 = some r) : row ≠ none ∨ refs := by
  cases row with
  | some _ => exact Or.inl (Option.some_ne_none _)
  | none =>
      cases call with
      | createLeaveRequest =>
          by_cases hrefs : refs
          · exact Or.inr hrefs
          · simp [ChildCall.effect, hrefs] at h
      | attendanceSummary | lessonConsumption => cases ht
      | _ => cases h

/-- Calls leave the references closed. -/
theorem closed_run (hclosed : db.Closed) : (call.run ambient env db).2.Closed := by
  cases ht : call.target? with
  | none => rwa [run_of_statistic ht]
  | some e =>
      have hrun := run_performs db ambient env ht
      refine (sameReferred_run ht).closed fun r hr k hk => ?_
      by_cases he : e ∈ r.entries
      · rw [parents_of_link (isLink_of_target ht) he] at hk
        have hrow := (mem_iff_row? he).mp hr
        rw [hrun.row] at hrow
        rcases effect_some ht hrow with hsome | hrefs
        · obtain ⟨r', hrow'⟩ := Option.ne_none_iff_exists'.mp hsome
          obtain ⟨hr', he'⟩ := Indexed.row?_eq_some_iff.mp hrow'
          exact hclosed r' hr' k (by rwa [parents_of_link (isLink_of_target ht) he'])
        · exact hrefs k hk
      · exact hclosed r ((hrun.rest r he).mpr hr) k hk

end Closed

/-! ### Requests -/

/-- A call with its user's context and what it takes from outside. -/
structure ChildRequest where
  access : AccessContext
  env : CallEnv
  call : ChildCall

def ChildRequest.exec (db : Database) (request : ChildRequest) :
    Except HttpException Reply × Database :=
  request.call.run request.access.ambient request.env db

/-- The request of a user of the observer's tenants. -/
def ChildRequest.mine (access : AccessContext) (request : ChildRequest) : Bool :=
  request.access.tenantWhere = access.tenantWhere

/-- The call writes no row that links one the observer sees. -/
def ChildCall.Avoids (access : AccessContext) (db : Database) (call : ChildCall) : Prop :=
  ∀ e ∈ call.target?, ∀ k ∈ e.refs, ¬ db.SeenAt access k

/-- The observer's users name rows of their tenants, and the others no row the observer sees. -/
def ChildRequest.KeepsToOwn (access : AccessContext) (db : Database) (request : ChildRequest) : Prop :=
  if request.mine access then request.call.NamesOwn access request.env db
  else request.call.Avoids access db

section Runs

variable {access : AccessContext} {db db' : Database} {call : ChildCall} {env : CallEnv}
  {ambient : Ambient}

/-- **Own calls**: where the databases look the same, so do the replies and what is left. -/
theorem ChildCall.NamesOwn.alike_run (h : call.NamesOwn access env db) (halike : db.Alike access db') :
    (call.run ambient env db).1 = (call.run ambient env db').1 ∧
      (call.run ambient env db).2.Alike access (call.run ambient env db').2 := by
  cases ht : call.target? with
  | none =>
      rw [run_of_statistic ht, run_of_statistic ht]
      exact ⟨h.statistic ht halike, halike⟩
  | some e =>
      have hrun := run_performs db ambient env ht
      have hrun' := run_performs db' ambient env ht
      have heffect := h.effect_eq halike ht
      refine ⟨by rw [hrun.reply, hrun'.reply, heffect], ?_⟩
      refine halike.of_sameReferred (sameReferred_run ht) (sameReferred_run ht) fun r hview => ?_
      by_cases he : e ∈ r.entries
      · rw [mem_iff_row? he, mem_iff_row? he, hrun.row, hrun'.row, heffect]
      · rw [← hrun.rest r he, ← hrun'.rest r he]
        exact halike.mem hview

/-- **Calls of others**: the database looks as before. -/
theorem ChildCall.Avoids.alike_run (h : call.Avoids access db) :
    db.Alike access (call.run ambient env db).2 := by
  cases ht : call.target? with
  | none =>
      rw [run_of_statistic ht]
      exact .refl db
  | some e =>
      refine (Indexed.Agree.refl db).of_sameReferred (fun _ _ => Iff.rfl) (sameReferred_run ht)
        fun r hview => ?_
      refine (run_performs db ambient env ht).rest r fun he => ?_
      obtain ⟨k, hk, hseen⟩ := (inView_of_link (isLink_of_target ht) he).mp hview
      exact h e ht k hk hseen

theorem unwinding (access : AccessContext) :
    Unwinding (ChildRequest.mine access) ChildRequest.exec
      (fun db request => request.KeepsToOwn access db)
      (Database.Alike access) where
  equivalence := ⟨Indexed.Agree.refl, Indexed.Agree.symm, Indexed.Agree.trans⟩
  step halike hmine hkeeps := ChildCall.NamesOwn.alike_run
    (by simpa [ChildRequest.KeepsToOwn, hmine] using hkeeps) halike
  respect hmine hkeeps := ChildCall.Avoids.alike_run
    (by simpa [ChildRequest.KeepsToOwn, hmine] using hkeeps)

end Runs

/-- **Noninterference over runs**: when every request keeps to its own rows, the replies to the
users of some tenants are those they get when nobody else calls, on any database that looks the
same to them. -/
theorem replies_without_others {access : AccessContext} {db db' : Database}
    (halike : db.Alike access db')
    {requests : List ChildRequest}
    (h : AllowedRun ChildRequest.exec (fun db request => request.KeepsToOwn access db) db requests) :
    repliesTo (ChildRequest.mine access) ChildRequest.exec db requests =
      repliesTo (ChildRequest.mine access) ChildRequest.exec db'
        (requests.filter (ChildRequest.mine access)) :=
  (unwinding access).replies_filter halike h

/-- Each tenant's staff take the tag off their student. -/
def tagRemovals : List ChildRequest :=
  [⟨staffOf "south", epochEnv, .removeTag "s2" "t1"⟩,
    ⟨staffOf "north", epochEnv, .removeTag "s1" "t1"⟩]

theorem not_seenAt_south : ¬ twoTenantRows.SeenAt (staffOf "north") (.student "s2") := by
  intro hseen
  obtain ⟨r, hr, he, clause, hclause, hadmits⟩ := ownAt_student hseen
  obtain ⟨tenantId, rfl⟩ := student_of_mem he
  obtain rfl : tenantId = some "south" := by simpa [twoTenantRows] using hr
  obtain rfl : clause = .in ["north"] := (Option.some.inj hclause).symm
  exact absurd hadmits (by decide)

theorem north_unaffected :
    repliesTo (ChildRequest.mine (staffOf "north")) ChildRequest.exec twoTenantRows tagRemovals =
      repliesTo (ChildRequest.mine (staffOf "north")) ChildRequest.exec twoTenantRows
        (tagRemovals.filter (ChildRequest.mine (staffOf "north"))) := by
  refine replies_without_others (.refl twoTenantRows) ⟨?_, ?_, trivial⟩
  · intro e he k hk
    obtain rfl := Option.some.inj he
    simp only [Entry.refs, List.mem_cons, List.not_mem_nil, or_false] at hk
    rcases hk with rfl | rfl
    · exact not_seenAt_south
    · exact not_seenAt_shared (Or.inl ⟨"t1", rfl⟩)
  · have hstudent := ((run_performs twoTenantRows (staffOf "south").ambient epochEnv
      (rfl : (ChildCall.removeTag "s2" "t1").target? = some _)).rest (.student "s1" (some "north"))
      (by simp [StoredRow.entries])).mp (by simp [twoTenantRows])
    exact ⟨_, hstudent, by simp [StoredRow.entries], .in ["north"], rfl, by decide⟩

end MibServer.Tenancy

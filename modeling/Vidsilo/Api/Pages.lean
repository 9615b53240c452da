import Vidsilo.Library.Decimal
import Vidsilo.Library.SlashPath
import Mathlib.Algebra.Group.Int.Even

/-!
# Pages of listings

Source: internal/db/entries.go:79-86, 179-188 (`EntryFilter.Validate`, `ListEntries`),
internal/db/users.go:59-78 (`ListUsersPage`), internal/db/viewers.go:50-67 (`ListViewersPage`),
internal/api/media.go:151-172 (`handleCatalog`), internal/api/activity.go:74-97 (`handleJobs`),
internal/api/audit.go:41-75 (`handleAuditList`), and the handlers that call the first three:
internal/api/entries.go:87-111, internal/api/users.go:22-32, internal/api/viewers.go:271-279.
Each listing reads a page and a limit, and passes Postgres a LIMIT and an OFFSET; its filters,
its order and its rows are left out. Go's `int` has 64 bits.
-/
namespace Vidsilo.Api.Pages
open Library.SlashPath Library.Decimal

/-- What goes into the query. -/
structure Query where
  limit : Int
  offset : Int
  deriving DecidableEq, Repr

def sanitizedLimit (default limit : Int) : Int :=
  if limit ≤ 0 ∨ 100 < limit then default else limit

def sanitizedPage (page : Int) : Int := if page ≤ 0 then 1 else page

/-- `(page - 1) * limit`, which wraps. -/
def offset (page limit : Int) : Int := Int.bmod ((page - 1) * limit) (2 ^ 64)

/-- An absurd page value: never a negative OFFSET. -/
def guardedOffset (page limit : Int) : Int := if offset page limit < 0 then 0 else offset page limit

/-- A listing by the limit that it falls back to. -/
def paginate (default page limit : Int) (offset : Int → Int → Int) : Query where
  limit := sanitizedLimit default limit
  offset := offset (sanitizedPage page) (sanitizedLimit default limit)

def listEntries (page limit : Int) : Query := paginate 20 page limit offset

def listUsersPage (page limit : Int) : Query := paginate 50 page limit offset

def listViewersPage (page limit : Int) : Query := paginate 50 page limit offset

def handleEntriesList (page limit : Text) : Query := listEntries (atoi page) (atoi limit)

/-- Without a page all users are listed. -/
def handleUsersList (page limit : Text) : Option Query :=
  if page = [] then none else some (listUsersPage (atoi page) (atoi limit))

def handleViewersList (page limit : Text) : Query := listViewersPage (atoi page) (atoi limit)

def handleCatalog (page limit : Text) : Query :=
  paginate 24 (atoi page) (atoi limit) guardedOffset

def handleAuditList (page limit : Text) : Query :=
  paginate 50 (atoi page) (atoi limit) guardedOffset

/-- Without a positive page the first fifty are listed. -/
def handleJobs (page limit : Text) : Query :=
  let paginated := 0 < atoi page
  let limit := if ¬ paginated then 50 else sanitizedLimit 50 (atoi limit)
  ⟨limit, if paginated then guardedOffset (atoi page) limit else 0⟩

inductive Listing where
  | entries | users | viewers | catalog | jobs | audit
  deriving DecidableEq, Repr

def Listing.request : Listing → Text → Text → Option Query
  | .entries, page, limit => some (handleEntriesList page limit)
  | .users, page, limit => handleUsersList page limit
  | .viewers, page, limit => some (handleViewersList page limit)
  | .catalog, page, limit => some (handleCatalog page limit)
  | .jobs, page, limit => some (handleJobs page limit)
  | .audit, page, limit => some (handleAuditList page limit)

/-- The listings that do not pass a wrapped product on. -/
def Listing.guarded : Listing → Bool
  | .catalog | .jobs | .audit => true
  | .entries | .users | .viewers => false

def Listing.default : Listing → Int
  | .entries => 20
  | .catalog => 24
  | .users | .viewers | .jobs | .audit => 50

/-- The OFFSET of a page. -/
structure Proper (page : Int) (q : Query) : Prop where
  nonneg : 0 ≤ q.offset
  exact : (page - 1) * q.limit < 2 ^ 63 → q.offset = (page - 1) * q.limit

theorem sanitizedPage_pos (page : Int) : 1 ≤ sanitizedPage page := by
  unfold sanitizedPage
  split <;> omega

theorem sanitizedLimit_pos {default : Int} (h : 1 ≤ default) (limit : Int) :
    1 ≤ sanitizedLimit default limit := by
  unfold sanitizedLimit
  split <;> omega

theorem Listing.default_pos (l : Listing) : 1 ≤ l.default := by
  cases l <;> decide

/-- A number wraps to a negative one every other 2^63. -/
theorem bmod_nonneg_iff (n : Int) : 0 ≤ Int.bmod n (2 ^ 64) ↔ Even (n / 2 ^ 63) := by
  rw [Int.even_iff, Int.bmod_def]
  split <;> omega

theorem bmod_of_fits {n : Int} (h : 0 ≤ n) (fits : n < 2 ^ 63) : Int.bmod n (2 ^ 64) = n := by
  rw [Int.bmod_def]
  split <;> omega

theorem product_nonneg {default : Int} (h : 1 ≤ default) (page limit : Int) :
    0 ≤ (sanitizedPage page - 1) * sanitizedLimit default limit := by
  have := sanitizedPage_pos page
  have := sanitizedLimit_pos h limit
  exact Int.mul_nonneg (by omega) (by omega)

theorem proper_offset_iff {default : Int} (h : 1 ≤ default) (page limit : Int) :
    Proper (sanitizedPage page) (paginate default page limit offset) ↔
      Even ((sanitizedPage page - 1) * sanitizedLimit default limit / 2 ^ 63) := by
  rw [← bmod_nonneg_iff]
  exact ⟨fun proper => proper.nonneg,
    fun nonneg => ⟨nonneg, bmod_of_fits (product_nonneg h page limit)⟩⟩

theorem proper_guardedOffset {default : Int} (h : 1 ≤ default) (page limit : Int) :
    Proper (sanitizedPage page) (paginate default page limit guardedOffset) := by
  have nonneg := product_nonneg h page limit
  constructor
  · unfold paginate guardedOffset
    dsimp only
    split <;> omega
  · intro fits
    have same : offset (sanitizedPage page) (sanitizedLimit default limit) =
        (sanitizedPage page - 1) * sanitizedLimit default limit := bmod_of_fits nonneg fits
    exact (if_neg (by omega)).trans same

/-- With the sanitized values. -/
def product (l : Listing) (page limit : Text) : Int :=
  (sanitizedPage (atoi page) - 1) * sanitizedLimit l.default (atoi limit)

/-- The first page is at offset zero, whatever its limit. -/
theorem product_first {l : Listing} {page limit : Text} (h : atoi page ≤ 0) :
    product l page limit = 0 := by
  rw [product, sanitizedPage, if_pos h, Int.sub_self, Int.zero_mul]

theorem handleJobs_first {page limit : Text} (h : atoi page ≤ 0) :
    handleJobs page limit = ⟨50, 0⟩ := by
  simp [handleJobs, Int.not_lt.mpr h]

theorem handleJobs_paginated {page limit : Text} (h : 0 < atoi page) :
    handleJobs page limit = paginate 50 (atoi page) (atoi limit) guardedOffset := by
  simp [handleJobs, paginate, sanitizedPage, h, Int.not_le.mpr h]

theorem proper_handleJobs (page limit : Text) :
    Proper (sanitizedPage (atoi page)) (handleJobs page limit) := by
  by_cases first : atoi page ≤ 0
  · rw [handleJobs_first first, sanitizedPage, if_pos first]
    exact ⟨Int.le_refl 0, fun _ => rfl⟩
  · rw [handleJobs_paginated (Int.not_le.mp first)]
    exact proper_guardedOffset (by decide) _ _

/-- Every request of the listing has a proper offset. -/
def Listing.Proper (l : Listing) (page limit : Text) : Prop :=
  ∀ q, l.request page limit = some q → Pages.Proper (sanitizedPage (atoi page)) q

theorem proper_some {l : Listing} {page limit : Text} {q : Query}
    (h : l.request page limit = some q) :
    l.Proper page limit ↔ Pages.Proper (sanitizedPage (atoi page)) q := by
  rw [Listing.Proper, h]
  exact ⟨fun proper => proper q rfl, fun proper q' same => Option.some.inj same ▸ proper⟩

theorem proper_unguarded {l : Listing} {page limit : Text}
    (h : l.request page limit = some (paginate l.default (atoi page) (atoi limit) offset)) :
    l.Proper page limit ↔ Even (product l page limit / 2 ^ 63) :=
  (proper_some h).trans (proper_offset_iff l.default_pos _ _)

theorem proper_guarded {l : Listing} {page limit : Text}
    (h : l.request page limit = some (paginate l.default (atoi page) (atoi limit) guardedOffset)) :
    l.Proper page limit :=
  (proper_some h).mpr (proper_guardedOffset l.default_pos _ _)

theorem proper_users (page limit : Text) :
    Listing.users.Proper page limit ↔ Even (product .users page limit / 2 ^ 63) := by
  by_cases all : page = []
  · subst all
    have zero : product .users [] limit = 0 := product_first (by decide)
    rw [zero]
    exact ⟨fun _ => by decide, fun _ q none => by cases none⟩
  · exact proper_unguarded (if_neg all)

theorem offsets_iff (l : Listing) (page limit : Text) :
    l.Proper page limit ↔ l.guarded = true ∨ Even (product l page limit / 2 ^ 63) := by
  cases l with
  | entries => simpa [Listing.guarded] using proper_unguarded (l := .entries) rfl
  | viewers => simpa [Listing.guarded] using proper_unguarded (l := .viewers) rfl
  | users => simpa [Listing.guarded] using proper_users page limit
  | catalog => simpa [Listing.guarded] using proper_guarded (l := .catalog) rfl
  | audit => simpa [Listing.guarded] using proper_guarded (l := .audit) rfl
  | jobs => simpa [Listing.guarded] using (proper_some rfl).mpr (proper_handleJobs page limit)

/-- A number of twenty digits is read as the largest one. -/
theorem absurd_page : ¬ Listing.entries.Proper "99999999999999999999".toList [] ∧
    handleEntriesList "99999999999999999999".toList [] = ⟨20, -40⟩ ∧
    handleCatalog "99999999999999999999".toList [] = ⟨24, 0⟩ := by
  have query : handleEntriesList "99999999999999999999".toList [] = ⟨20, -40⟩ := by decide +kernel
  refine ⟨fun proper => ?_, query, by decide +kernel⟩
  have nonneg := (proper _ (congrArg some query)).nonneg
  exact absurd nonneg (by decide)

end Vidsilo.Api.Pages

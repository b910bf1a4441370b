import Mathlib.Logic.Basic

/-! # Permissions

What each type of user may do, and tests on sets of permissions.
-/

namespace Abacus.Client.Permissions

inductive Permission
  | auth
  | submit
  | clarificationRequest
  | clarificationReply
  | changePassword
  | inStandings
  | seeStandings
  | seeAllStandings
  | seeFinalStandings
  | seeAllClarificationRequests
  | seeAllClarifications
  | seeAllSubmissions
  | seeAllProblems
  | seeProblemDetails
  | seeSubmissionDetails
  | seeUserId
  | mark
  | judge
  | judgeOverride
  | setBonus
  | userAdmin
  | problemAdmin
  | serverAdmin
  | startStop
  deriving DecidableEq, Repr

def permissionNames : List (Permission × String) :=
  [(.auth, "auth"), (.submit, "submit"), (.clarificationRequest, "clarification_request"),
    (.clarificationReply, "clarification_reply"), (.changePassword, "change_password"), (.inStandings, "in_standings"),
    (.seeStandings, "see_standings"), (.seeAllStandings, "see_all_standings"),
    (.seeFinalStandings, "see_final_standings"), (.seeAllClarificationRequests, "see_all_clarification_requests"),
    (.seeAllClarifications, "see_all_clarifications"), (.seeAllSubmissions, "see_all_submissions"),
    (.seeAllProblems, "see_all_problems"), (.seeProblemDetails, "see_problem_details"),
    (.seeSubmissionDetails, "see_submission_details"), (.seeUserId, "see_user_id"), (.mark, "mark"), (.judge, "judge"),
    (.judgeOverride, "judge_override"), (.setBonus, "set_bonus"), (.userAdmin, "user_admin"),
    (.problemAdmin, "problem_admin"), (.serverAdmin, "server_admin"), (.startStop, "start_stop")]

abbrev PermissionSet := Permission → Bool

inductive PermissionTest
  | none
  | any
  | base (p : Permission)
  | or (l r : PermissionTest)
  | and (l r : PermissionTest)
  | not (t : PermissionTest)
  deriving DecidableEq, Repr

def PermissionTest.matches (perms : PermissionSet) : PermissionTest → Bool
  | none => false
  | any => true
  | base p => perms p
  | or l r => l.matches perms || r.matches perms
  | and l r => l.matches perms && r.matches perms
  | not t => !t.matches perms

inductive UserType
  | none
  | admin
  | judge
  | contestant
  | marker
  | observer
  | proctor
  deriving DecidableEq, Repr

def UserType.ofCode : Nat → Option UserType
  | 0 => some .none
  | 1 => some .admin
  | 2 => some .judge
  | 3 => some .contestant
  | 4 => some .marker
  | 5 => some .observer
  | 6 => some .proctor
  | _ => Option.none

def maskManager : List UserType := [.admin, .judge]

def maskNoMarker : List UserType := [.admin, .judge, .contestant, .observer, .proctor]

def maskAll : List UserType := [.admin, .judge, .contestant, .marker, .observer, .proctor]

def allowed : Permission → List UserType
  | .auth => maskAll
  | .submit => [.contestant, .observer]
  | .clarificationRequest => maskNoMarker
  | .clarificationReply => maskManager
  | .changePassword => maskNoMarker
  | .inStandings => [.contestant]
  | .seeStandings => .none :: maskNoMarker
  | .seeAllStandings => [.observer, .proctor] ++ maskManager
  | .seeFinalStandings => .proctor :: maskManager
  | .seeAllClarificationRequests => maskManager
  | .seeAllClarifications => maskManager
  | .seeAllSubmissions => maskManager
  | .seeAllProblems => maskManager
  | .seeProblemDetails => .marker :: maskManager
  | .seeSubmissionDetails => maskManager
  | .seeUserId => [.admin]
  | .mark => [.marker, .admin]
  | .judge => maskManager
  | .judgeOverride => [.admin]
  | .setBonus => maskManager
  | .userAdmin => [.admin]
  | .serverAdmin => [.admin]
  | .problemAdmin => [.admin]
  | .startStop => [.admin]

/-- A number that is no user type has no permission. -/
def getPermissions (userType : Nat) : PermissionSet := fun p =>
  (UserType.ofCode userType).any fun t => t ∈ allowed p

end Abacus.Client.Permissions

import MibServer.Lib.Index

/-!
The rows of the timetable: course types, venues, classes with their students, and schedules.
-/

namespace MibServer.Courses

open MibServer.Lib

/-! ### Rows -/

inductive CourseKind where
  | GROUP | PRIVATE | LARGE_CLASS
deriving DecidableEq, Repr

structure CourseType where
  id : String
  tenantId : Option String
  kind : CourseKind
  name : String
  defaultLessonDeduct : Int
deriving DecidableEq, Repr

/-- A latitude or longitude; the model computes nothing with it. -/
abbrev Coordinate := Int

structure Venue where
  id : String
  tenantId : Option String
  name : String
  address : Option String
  latitude : Option Coordinate
  longitude : Option Coordinate
  geofenceRadiusM : Option Int
deriving DecidableEq, Repr

structure Class where
  id : String
  tenantId : Option String
  courseTypeId : String
  name : String
  coachId : Option String
  maxStudents : Option Int
deriving DecidableEq, Repr

structure ClassStudent where
  classId : String
  studentId : String
deriving DecidableEq, Repr

inductive ScheduleStatus where
  | scheduled | cancelled | completed
deriving DecidableEq, Repr

/-- A row of `Schedule` without its `tenantId`; the audit columns are left out. -/
structure ScheduleFields where
  id : String
  classId : String
  venueId : String
  coachId : String
  startsAt : Int
  endsAt : Int
  lateGraceMinutes : Int
  status : ScheduleStatus
deriving DecidableEq, Repr

structure Schedule extends ScheduleFields where
  tenantId : Option String
deriving DecidableEq, Repr

/-! ### Tables -/

def CourseType.keys (t : CourseType) : List String := [t.id]

def Venue.keys (v : Venue) : List String := [v.id]

def Class.keys (k : Class) : List String := [k.id]

/-- `@@id([classId, studentId])` -/
def ClassStudent.keys (e : ClassStudent) : List (String × String) := [(e.classId, e.studentId)]

def Schedule.keys (s : Schedule) : List String := [s.id]

abbrev CourseTypeTable := Indexed CourseType String CourseType.keys

abbrev VenueTable := Indexed Venue String Venue.keys

abbrev ClassTable := Indexed Class String Class.keys

abbrev ClassStudentTable := Indexed ClassStudent (String × String) ClassStudent.keys

abbrev ScheduleTable := Indexed Schedule String Schedule.keys

end MibServer.Courses

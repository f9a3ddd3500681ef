/-
`Models/Landmark.swift`: what a location search finds, as the app keeps it.

`Landmark.id` is a computed property that returns `UUID()`, so every read of it
yields a new value. A read is modelled with the value it yields as an argument.
-/
import FreeFood.Platform

set_option autoImplicit false

namespace FreeFood.Landmarks

open FreeFood.Platform

/-- `CLLocationCoordinate2D`. -/
structure Coordinate where
  latitude : Double
  longitude : Double
deriving DecidableEq

/-- The parts of an `MKPlacemark` that the app reads. -/
structure Placemark where
  name : Option String
  title : Option String
  locality : Option String
  coordinate : Coordinate
deriving DecidableEq

/-- An `MKMapItem`. -/
structure MapItem where
  placemark : Placemark
deriving DecidableEq

/-- `Landmark`. -/
structure Landmark where
  placemark : Placemark
deriving DecidableEq

namespace Landmark

/-- `Landmark.id`, at a read for which `UUID()` returns `fresh`. -/
def id (_ : Landmark) (fresh : UUID) : UUID := fresh

def name (l : Landmark) : String := l.placemark.name.getD ""

def title (l : Landmark) : String := l.placemark.title.getD ""

def coordinate (l : Landmark) : Coordinate := l.placemark.coordinate

end Landmark

end FreeFood.Landmarks

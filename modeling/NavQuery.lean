import NavQuery.Main
import NavQuery.Proofs.Aliases
import NavQuery.Proofs.ClosedStatements
import NavQuery.Proofs.CommonDomains
import NavQuery.Proofs.CompanionDepth
import NavQuery.Proofs.CompiledRows
import NavQuery.Proofs.Congruence
import NavQuery.Proofs.Connectives
import NavQuery.Proofs.Containment
import NavQuery.Proofs.FilterSpellings
import NavQuery.Proofs.Grounds
import NavQuery.Proofs.GuardedAggregates
import NavQuery.Proofs.Inflation
import NavQuery.Proofs.KernelRows
import NavQuery.Proofs.Lexemes
import NavQuery.Proofs.Listings
import NavQuery.Proofs.ParameterValues
import NavQuery.Proofs.PlanRuns
import NavQuery.Proofs.Plans
import NavQuery.Proofs.PluralSpaces
import NavQuery.Proofs.RouteConsistency
import NavQuery.Proofs.SingularSegments
import NavQuery.Proofs.Unmasking
import NavQuery.Proofs.Unwrapping

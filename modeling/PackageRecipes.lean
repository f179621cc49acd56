import PackageRecipes.Directive.Handle
import PackageRecipes.Directive.Registry
import PackageRecipes.Main
import PackageRecipes.Proofs.LastDeclaration
import PackageRecipes.Proofs.GreatestLowerBound
import PackageRecipes.Spec.Satisfaction
import PackageRecipes.Proofs.BuildAgreement
import PackageRecipes.Proofs.AncestorsFirst
import PackageRecipes.Proofs.WellFormedDescriptors
import PackageRecipes.Proofs.GrowingDescriptors
import PackageRecipes.Proofs.DeclaredFields
import PackageRecipes.Proofs.OwnAncestry
import PackageRecipes.Proofs.DeclarationOrder
import PackageRecipes.Proofs.NormalText
import PackageRecipes.Proofs.AdmittedVersions
import PackageRecipes.Proofs.SatisfactionOrder
import PackageRecipes.Proofs.NarrowingOrder
import PackageRecipes.Proofs.RepeatedNarrowing
import PackageRecipes.Proofs.StagedDestinations
import PackageRecipes.Proofs.DescriptorKeys
import PackageRecipes.Proofs.DocumentNames
import PackageRecipes.Proofs.GraphHistories
import PackageRecipes.Proofs.AncestorSearch
import PackageRecipes.Proofs.VersionTexts
import PackageRecipes.Proofs.RefusedDirectives
import PackageRecipes.Proofs.ReadClauses
import PackageRecipes.Proofs.EquivalentConditions
import PackageRecipes.Proofs.ItemOrder
import PackageRecipes.Proofs.ListedVersions
import PackageRecipes.Proofs.HandleRequests
import PackageRecipes.Proofs.VariantDefaults
import PackageRecipes.Proofs.CanonicalSpecs
import PackageRecipes.Proofs.ContainedRanges
import PackageRecipes.Proofs.ConditionKeys
import PackageRecipes.Proofs.DeclaredRequirements
import PackageRecipes.Proofs.DependencyPurposes
import PackageRecipes.Proofs.VersionSegments
import PackageRecipes.Proofs.DirectiveUpdates
import PackageRecipes.Proofs.GrowingRuns
